import LkChain.Tendermint.Execution
import Mathlib.Data.List.Induction

/-!
# Rolling blocks back

The command `tendermint rollback` takes a stopped node back to a height. It puts the state of that
height together from the headers of two blocks and from the records of the validators and the
parameters, saves it, and deletes the blocks above. Three fields of the state are left as they were:
the heights at which the validators and the parameters last changed, and the coinbase. With a height
of change from the future, the state that is saved also overwrites the record of the next height
with a reference to the future. A block that is stored above the state is not deleted.
-/

namespace LkChain.Tendermint.Rollback

open Foundation Foundation.Stops Tendermint.Types ValSet ChainState StateStore History Validation
    BlockStore
    Execution
open Validators.ParseTx (Bytes Crypto sampleCrypto)

variable {PubKey Signature Address Content : Type}

/-- The errors of `rollbackBlocks`. -/
inductive RollbackError where
  | heightTooHigh (height currblocknum : ℤ)
  | blockNotFound (height : ℤ)
  | loadValidators (height : ℤ) (error : LoadError)
  | loadConsensusParams (height : ℤ) (error : LoadError)
deriving DecidableEq

section Program

variable (wire : Wire PubKey Signature Address)

/-- The loop that deletes so many blocks above a height, the highest one first. -/
def deleteBlocks (height : ℤ) :
    ℕ → Store Signature Address → StateDB PubKey Address →
      Store Signature Address × StateDB PubKey Address
  | 0, store, db => (store, db)
  | count + 1, store, db =>
    let i := height + (count + 1 : ℕ)
    deleteBlocks height count (deleteBlock store i) (deleteABCIResponses db i)

/-- A block that `rollbackBlocks` reads a header from. -/
def targetBlock (store : Store Signature Address) (height : ℤ) :
    Fallible RollbackError (Block PubKey Signature Address) := do
  match ← loadBlock wire store height with
  | none => .error (.error (.blockNotFound height))
  | some block => .ok block

/-- The validators of a height. The records of a run never give a nil set, which a state cannot
hold here. -/
def targetValidators (db : StateDB PubKey Address) (height : ℤ) :
    Fallible RollbackError (ValidatorSet PubKey Address) := do
  match ← (loadValidators db height).mapError (Stop.map (.loadValidators height)) with
  | none => .error (.panic .nilDereference)
  | some valSet => .ok valSet

/-- The state that `rollbackBlocks` saves, from the block of the height, the next one and the
records. -/
def rolledState (s : State PubKey Address) (height : ℤ)
    (next target : Block PubKey Signature Address)
    (validators lastValidators : ValidatorSet PubKey Address) (params : ConsensusParams) :
    State PubKey Address :=
  { s with
    appHash := next.header.appHash
    lastBlockID := next.header.lastBlockID
    lastResultsHash := next.header.lastResultsHash
    lastBlockHeight := height
    lastBlockTotalTx := target.header.totalTxs
    lastBlockTime := target.header.time
    validators := validators
    lastValidators := lastValidators
    consensusParams := params }

def rollbackBlocks (height : ℤ) (store : Store Signature Address) (s : State PubKey Address)
    (db : StateDB PubKey Address) :
    Fallible RollbackError (Store Signature Address × StateDB PubKey Address) :=
  let currblocknum := s.lastBlockHeight
  if currblocknum ≤ height then .error (.error (.heightTooHigh height currblocknum))
  else do
    let next ← targetBlock wire store (height + 1)
    let target ← targetBlock wire store height
    let validators ← targetValidators db (height + 1)
    let lastValidators ← targetValidators db height
    let params ← (loadConsensusParams db (height + 1)).mapError
      (Stop.map (.loadConsensusParams (height + 1)))
    let db := saveState db (rolledState s height next target validators lastValidators params)
    let store := { store with db := { store.db with descriptor := some height } }
    return deleteBlocks height (currblocknum - height).toNat store db

end Program

section Reading

variable {wire : Wire PubKey Signature Address} {store : Store Signature Address}
  {db : StateDB PubKey Address} {height : ℤ}

theorem targetBlock_of_load {block : Block PubKey Signature Address}
    (hload : (loadBlock wire store height : Fallible RollbackError _) = .ok (some block)) :
    targetBlock wire store height = .ok block := by
  unfold targetBlock
  rw [hload]
  rfl

theorem blockMeta_of_targetBlock {block : Block PubKey Signature Address}
    (htarget : targetBlock wire store height = .ok block) :
    (store.db.blockMeta height).isSome := by
  rw [Option.isSome_iff_ne_none]
  intro hnone
  unfold targetBlock at htarget
  rw [loadBlock_of_blockMeta_none hnone] at htarget
  cases htarget

theorem targetValidators_of_load {valSet : ValidatorSet PubKey Address}
    (hload : loadValidators db height = .ok (some valSet)) :
    targetValidators db height = .ok valSet := by
  unfold targetValidators
  rw [hload]
  rfl

/-- What `rollbackBlocks` does once it has read everything but the parameters. -/
theorem rollbackBlocks_eq {s : State PubKey Address} {count : ℕ}
    {next last : Block PubKey Signature Address}
    {validators lastValidators : ValidatorSet PubKey Address}
    (hcurrent : s.lastBlockHeight = height + count) (hcount : 0 < count)
    (hnext : targetBlock wire store (height + 1) = .ok next)
    (hlast : targetBlock wire store height = .ok last)
    (hvalidators : targetValidators db (height + 1) = .ok validators)
    (hlastValidators : targetValidators db height = .ok lastValidators) :
    rollbackBlocks wire height store s db = (do
      let params ← (loadConsensusParams db (height + 1)).mapError
        (Stop.map (.loadConsensusParams (height + 1)))
      return deleteBlocks height count
        { store with db := { store.db with descriptor := some height } }
        (saveState db (rolledState s height next last validators lastValidators params))) := by
  have hdeleted : (s.lastBlockHeight - height).toNat = count := by omega
  unfold rollbackBlocks
  rw [if_neg (by omega), hnext, hlast, hvalidators, hlastValidators, hdeleted]
  rfl

end Reading

/-! ## Deleting blocks -/

section Deleting

variable {wire : Wire PubKey Signature Address} {height : ℤ} {count : ℕ}
  {store : Store Signature Address} {db : StateDB PubKey Address}

theorem deleteBlocks_db :
    ∃ responses, (deleteBlocks height count store db).2 =
      { db with abciResponses := responses } := by
  induction count generalizing store db with
  | zero => exact ⟨db.abciResponses, rfl⟩
  | succ count ih => exact ih

theorem deleteBlock_descriptor {other : ℤ} :
    (deleteBlock store other).db.descriptor = store.db.descriptor := by
  unfold deleteBlock
  split <;> rfl

theorem deleteBlocks_descriptor :
    (deleteBlocks height count store db).1.db.descriptor = store.db.descriptor := by
  induction count generalizing store db with
  | zero => rfl
  | succ count ih => exact ih.trans deleteBlock_descriptor

/-- The blocks up to the height and those that are too high stay. -/
theorem loadBlock_deleteBlocks_outside {other : ℤ}
    (houtside : other ≤ height ∨ height + count < other) :
    (loadBlock wire (deleteBlocks height count store db).1 other : Fallible RollbackError _) =
      loadBlock wire store other := by
  induction count generalizing store db with
  | zero => rfl
  | succ count ih =>
    rw [deleteBlocks, ih (by omega)]
    exact loadBlock_deleteBlock_of_ne (by omega)

theorem loadBlock_deleteBlocks_inside {other : ℤ} (habove : height < other)
    (hbelow : other ≤ height + count) :
    (loadBlock wire (deleteBlocks height count store db).1 other : Fallible RollbackError _) =
      .ok none := by
  induction count generalizing store db with
  | zero => omega
  | succ count ih =>
    rw [deleteBlocks]
    by_cases hlast : other = height + (count + 1 : ℕ)
    · rw [loadBlock_deleteBlocks_outside (by omega), hlast, loadBlock_deleteBlock]
    · exact ih (by omega)

theorem deleteBlocks_height (hcount : 0 < count)
    (hnext : (store.db.blockMeta (height + 1)).isSome) :
    (deleteBlocks height count store db).1.height = height := by
  induction count generalizing store db with
  | zero => cases hcount
  | succ count ih =>
    cases count with
    | zero =>
      obtain ⟨blockMeta, hmeta⟩ := Option.isSome_iff_exists.mp hnext
      show (deleteBlock store (height + 1)).height = height
      unfold deleteBlock
      rw [hmeta]
      exact Int.add_sub_cancel height 1
    | succ count =>
      apply ih (Nat.succ_pos count)
      unfold deleteBlock
      split
      next => exact hnext
      next =>
        dsimp only
        rwa [Function.update_of_ne (by omega)]

end Deleting

/-! ## The records of a run -/

section Run

variable [LinearOrder Address] {crypto : Crypto PubKey Signature Address}
  {wire : Wire PubKey Signature Address} {app : Application PubKey Signature Address Content}
  {genesis : State PubKey Address} {content : Content}
  {node found after : Node PubKey Signature Address Content}
  {inputs done before rest : List (Block PubKey Signature Address × Commit Signature Address)}
  {input : Block PubKey Signature Address × Commit Signature Address}

/-- The states of a run from genesis, and the records that they have left. -/
structure Traced (crypto : Crypto PubKey Signature Address) (wire : Wire PubKey Signature Address)
    (app : Application PubKey Signature Address Content) (genesis : State PubKey Address)
    (content : Content)
    (inputs : List (Block PubKey Signature Address × Commit Signature Address))
    (node : Node PubKey Signature Address Content) (blocks : List Applied)
    (states : List (State PubKey Address)) : Prop where
  run : statesFrom crypto wire genesis blocks = .ok states
  successive : Successive genesis.lastBlockHeight blocks
  length : blocks.length = inputs.length
  visited : ∀ done found, done <+: inputs →
    processBlocks crypto wire app (genesisNode genesis content) done = .ok found →
      states[done.length]? = some found.state
  validatorsInfo : node.db.validatorsInfo = (saveStates states).validatorsInfo
  consensusParamsInfo : node.db.consensusParamsInfo = (saveStates states).consensusParamsInfo

theorem Traced.concat {blocks : List Applied} {states : List (State PubKey Address)}
    {block : Applied}
    (htraced : Traced crypto wire app genesis content inputs node blocks states)
    (hrun : processBlocks crypto wire app (genesisNode genesis content) inputs = .ok node)
    (hafter : processBlocks crypto wire app (genesisNode genesis content) (inputs ++ [input]) =
      .ok after)
    (hheight : block.header.height = genesis.lastBlockHeight + inputs.length + 1)
    (hnext : nextState crypto wire node.state block = .ok after.state)
    (hdb : after.db = saveState (saveABCIResponses node.db block.header.height block.responses)
      after.state) :
    Traced crypto wire app genesis content (inputs ++ [input]) after (blocks ++ [block])
      (states ++ [after.state]) := by
  have hlength : states.length = inputs.length + 1 := by
    rw [statesFrom_length htraced.run, htraced.length]
  have hlast : states.getLast? = some node.state := by
    rw [List.getLast?_eq_getElem?, hlength, Nat.add_sub_cancel]
    exact htraced.visited inputs node List.prefix_rfl hrun
  have hsaved : saveStates (states ++ [after.state]) = saveState (saveStates states) after.state :=
    List.foldl_concat ..
  refine {
    run := statesFrom_concat htraced.run hlast hnext
    successive := htraced.successive.concat (by rw [hheight, htraced.length])
    length := by rw [List.length_append, List.length_append, htraced.length]; rfl
    visited := fun done found hfront hfound ↦ ?_
    validatorsInfo := ?_
    consensusParamsInfo := ?_ }
  · rcases List.prefix_concat_iff.mp hfront with rfl | hfront
    · rw [hafter] at hfound
      cases hfound
      rw [List.length_append, List.length_singleton, ← hlength, List.getElem?_concat_length]
    · have hle := hfront.length_le
      rw [List.getElem?_append_left (by omega)]
      exact htraced.visited done found hfront hfound
  · rw [hdb, hsaved]
    show Function.update node.db.validatorsInfo _ _ =
      Function.update (saveStates states).validatorsInfo _ _
    rw [htraced.validatorsInfo]
  · rw [hdb, hsaved]
    show Function.update node.db.consensusParamsInfo _ _ =
      Function.update (saveStates states).consensusParamsInfo _ _
    rw [htraced.consensusParamsInfo]

theorem traced_of_run
    (hrun : processBlocks crypto wire app (genesisNode genesis content) inputs = .ok node) :
    ∃ blocks states, Traced crypto wire app genesis content inputs node blocks states := by
  induction inputs using List.reverseRecOn generalizing node with
  | nil =>
    cases hrun
    refine ⟨[], [genesis], rfl, trivial, rfl, fun done found hfront hfound ↦ ?_, rfl, rfl⟩
    rw [List.prefix_nil] at hfront
    subst hfront
    cases hfound
    rfl
  | append_singleton inputs input ih =>
    obtain ⟨middle, hmiddle, hlast⟩ := processBlocks_concat hrun
    obtain ⟨blocks, states, htraced⟩ := ih hmiddle
    obtain ⟨parts, hashed, hash, hprocessed⟩ := processed_of_processBlock hlast
    obtain ⟨-, hnext, hdb⟩ := applyBlock_eq_ok_iff.mp hprocessed.applied
    refine ⟨_, _, htraced.concat hmiddle hrun ?_ hnext hdb⟩
    have hrecorded := recorded_genesisNode.run hmiddle
    rw [hprocessed.contiguous, hrecorded.storeHeight, recorded_genesisNode.height_of_run hmiddle]
    rfl

end Run

/-! ## What a rollback should restore -/

/-- A state without the accumulators, the proposers and the cached totals of its validators. -/
def contents (s : State PubKey Address) :
    State PubKey Address × Members PubKey Address × Members PubKey Address :=
  ({ s with validators := .of [], lastValidators := .of [] }, s.validators.members,
    s.lastValidators.members)

theorem entries_of_contents {s t : State PubKey Address} (hcontents : contents s = contents t) :
    s.lastBlockHeight = t.lastBlockHeight ∧ validatorEntry s = validatorEntry t ∧
      paramEntry s = paramEntry t := by
  unfold contents at hcontents
  simp only [Prod.mk.injEq, State.mk.injEq] at hcontents
  obtain ⟨⟨-, hheight, -, -, -, -, -, hvalidators, hparams, hchanged, -⟩, hmembers, -⟩ := hcontents
  unfold validatorEntry paramEntry
  rw [hheight, hvalidators, hparams, hchanged, hmembers]
  exact ⟨rfl, rfl, rfl⟩

/-- The node is back at the target, which a run over some blocks has led to. -/
structure RolledBack [LinearOrder Address] (crypto : Crypto PubKey Signature Address)
    (wire : Wire PubKey Signature Address) (app : Application PubKey Signature Address Content)
    (genesis : State PubKey Address) (content : Content)
    (before : List (Block PubKey Signature Address × Commit Signature Address))
    (target : Node PubKey Signature Address Content) (store : Store Signature Address)
    (db : StateDB PubKey Address) : Prop where
  state : ∃ persisted, db.state = some persisted ∧ contents persisted = contents target.state
  storeHeight : store.height = target.state.lastBlockHeight
  descriptor : store.db.descriptor = some target.state.lastBlockHeight
  blocks : ∀ height, target.state.lastBlockHeight < height →
    (loadBlock wire store height : Fallible RollbackError _) = .ok none
  inForce : ∀ done found, done <+: before →
    processBlocks crypto wire app (genesisNode genesis content) done = .ok found →
      (∃ valSet, loadValidators db (found.state.lastBlockHeight + 1) = .ok (some valSet) ∧
        valSet.members = found.state.validators.members) ∧
      loadConsensusParams db (found.state.lastBlockHeight + 1) = .ok found.state.consensusParams

/-- What `rollbackBlocks` reads agrees with the state to restore. -/
structure Sources (target : State PubKey Address) (next last : Block PubKey Signature Address)
    (validators lastValidators : ValidatorSet PubKey Address) : Prop where
  appHash : next.header.appHash = target.appHash
  lastBlockID : next.header.lastBlockID = target.lastBlockID
  lastResultsHash : next.header.lastResultsHash = target.lastResultsHash
  totalTxs : last.header.totalTxs = target.lastBlockTotalTx
  time : last.header.time = target.lastBlockTime
  validators : validators.members = target.validators.members
  lastValidators : lastValidators.members = target.lastValidators.members

/-- The state that is saved is the one to restore, but for the fields that are not reset. -/
theorem Sources.contents_rolledState_iff {s target : State PubKey Address}
    {next last : Block PubKey Signature Address}
    {validators lastValidators : ValidatorSet PubKey Address} {params : ConsensusParams}
    (hsources : Sources target next last validators lastValidators)
    (hchainID : s.chainID = target.chainID) :
    contents (rolledState s target.lastBlockHeight next last validators lastValidators params) =
        contents target ↔
      params = target.consensusParams ∧
        s.lastHeightValidatorsChanged = target.lastHeightValidatorsChanged ∧
        s.lastHeightConsensusParamsChanged = target.lastHeightConsensusParamsChanged ∧
        s.coinbase = target.coinbase := by
  unfold contents rolledState
  simp only [hsources.appHash, hsources.lastBlockID, hsources.lastResultsHash, hsources.totalTxs,
    hsources.time, hsources.validators, hsources.lastValidators, hchainID, Prod.mk.injEq, and_true,
    State.mk.injEq, true_and]
  constructor
  · intro ⟨hvals, hparams, hchanged, hcoinbase⟩
    exact ⟨hparams, hvals, hchanged, hcoinbase⟩
  · intro ⟨hparams, hvals, hchanged, hcoinbase⟩
    exact ⟨hvals, hparams, hchanged, hcoinbase⟩

section Ahead

variable {wire : Wire PubKey Signature Address} {node : Node PubKey Signature Address Content}
  {store : Store Signature Address}

/-- The block store is at the height of the state or one block ahead. -/
def StoreAhead (wire : Wire PubKey Signature Address)
    (node : Node PubKey Signature Address Content) (store : Store Signature Address) : Prop :=
  store = node.store ∨ ∃ block parts seenCommit,
    (saveBlock wire node.store block parts seenCommit : Fallible RollbackError _) = .ok store

theorem StoreAhead.loadBlock (hstore : StoreAhead wire node store) {height : ℤ}
    (hheight : height ≤ node.store.height) :
    (BlockStore.loadBlock wire store height : Fallible RollbackError _) =
      BlockStore.loadBlock wire node.store height := by
  rcases hstore with rfl | ⟨block, parts, seenCommit, hsave⟩
  · rfl
  · obtain ⟨hnext, hashed, hash, -, rfl⟩ := withBlock_of_saveBlock hsave
    exact loadBlock_withBlock_of_ne (by omega)

theorem StoreAhead.above_iff {start : ℤ} (hstore : StoreAhead wire node store)
    (hrecorded : Recorded start node) :
    (∀ height, node.state.lastBlockHeight < height →
        (BlockStore.loadBlock wire store height : Fallible RollbackError _) = .ok none) ↔
      store.height = node.state.lastBlockHeight := by
  rw [← hrecorded.storeHeight]
  rcases hstore with rfl | ⟨block, parts, seenCommit, hsave⟩
  · exact ⟨fun _ ↦ rfl, fun _ height habove ↦
      loadBlock_of_blockMeta_none (hrecorded.above height habove)⟩
  · obtain ⟨hnext, hashed, hash, -, rfl⟩ := withBlock_of_saveBlock hsave
    constructor
    · intro hnone
      have hmeta := blockMeta_of_loadBlock_none (hnone block.header.height (by omega))
      unfold withBlock at hmeta
      dsimp only at hmeta
      rw [Function.update_self] at hmeta
      cases hmeta
    · intro hheight
      have hahead : block.header.height = node.store.height := hheight
      omega

end Ahead

section Records

variable [LinearOrder Address] {crypto : Crypto PubKey Signature Address}
  {wire : Wire PubKey Signature Address} {app : Application PubKey Signature Address Content}
  {genDoc : GenesisDoc PubKey} {genesis s : State PubKey Address} {content : Content}
  {node found target : Node PubKey Signature Address Content} {blocks : List Applied}
  {states : List (State PubKey Address)}
  {inputs done before rest : List (Block PubKey Signature Address × Commit Signature Address)}

theorem height_of_done
    (hfound : processBlocks crypto wire app (genesisNode genesis content) done = .ok found) :
    found.state.lastBlockHeight + 1 = genesis.lastBlockHeight + 1 + done.length := by
  rw [recorded_genesisNode.height_of_run hfound]
  show genesis.lastBlockHeight + _ + 1 = _
  omega

variable (htraced : Traced crypto wire app genesis content inputs node blocks states)
  (hgenesis : IsGenesis genDoc genesis) (hdone : done <+: inputs)
  (hfound : processBlocks crypto wire app (genesisNode genesis content) done = .ok found)
include htraced hdone hfound

theorem Traced.validatorVersions_saveState
    (hheight : s.lastBlockHeight = found.state.lastBlockHeight)
    (hentry : validatorEntry s = validatorEntry found.state) :
    validatorVersions (saveState node.db s) = validatorVersions node.db := by
  have hrecords : validatorVersions node.db = Versions.saveAll (validatorVersions .empty)
      (genesis.lastBlockHeight + 1) (states.map validatorEntry) := by
    rw [← validatorVersions_foldl (consecutive_of_run htraced.run htraced.successive)]
    unfold validatorVersions
    rw [htraced.validatorsInfo]
    rfl
  have hget : (states.map validatorEntry)[done.length]? = some (validatorEntry found.state) := by
    rw [List.getElem?_map, htraced.visited done found hdone hfound, Option.map_some]
  rw [StateStore.validatorVersions_saveState, hentry, hheight, height_of_done hfound, hrecords]
  exact Versions.save_saveAll_get hget

include hgenesis

theorem Traced.paramVersions_saveState (hheight : s.lastBlockHeight = found.state.lastBlockHeight)
    (hentry : paramEntry s = paramEntry found.state) :
    paramVersions (saveState node.db s) = paramVersions node.db := by
  have hvalid := validParams_of_run htraced.run hgenesis.validParams
  have hvisited := htraced.visited done found hdone hfound
  have hrecords : paramVersions node.db = Versions.saveAll
      (paramVersions (.empty : StateDB PubKey Address)) (genesis.lastBlockHeight + 1)
      (states.map paramEntry) := by
    rw [← paramVersions_foldl (consecutive_of_run htraced.run htraced.successive) hvalid]
    unfold paramVersions
    rw [htraced.consensusParamsInfo]
    rfl
  have hget : (states.map paramEntry)[done.length]? = some (paramEntry found.state) := by
    rw [List.getElem?_map, hvisited, Option.map_some]
  have hparams : s.consensusParams ≠ .empty := by
    rw [show s.consensusParams = found.state.consensusParams from
      congrArg Versions.Entry.version hentry]
    exact (hvalid found.state (List.mem_of_getElem? hvisited)).ne_empty
  rw [StateStore.paramVersions_saveState hparams, hentry, hheight, height_of_done hfound, hrecords]
  exact Versions.save_saveAll_get hget

theorem Traced.loadValidators :
    ∃ valSet, StateStore.loadValidators node.db (found.state.lastBlockHeight + 1) =
      .ok (some valSet) ∧ valSet.members = found.state.validators.members := by
  have hsuccessive := htraced.successive
  rw [hgenesis.lastBlockHeight] at hsuccessive
  rw [loadValidators_congr htraced.validatorsInfo, height_of_done hfound, hgenesis.lastBlockHeight]
  exact loadValidators_of_run hgenesis hsuccessive htraced.run
    (htraced.visited done found hdone hfound)

/-- The parameters in force are in the records if their last change is. -/
theorem Traced.loadConsensusParams_iff (hstart : 0 ≤ genDoc.blockStartNum) :
    loadConsensusParams node.db (found.state.lastBlockHeight + 1) =
        .ok found.state.consensusParams ↔
      genDoc.blockStartNum < found.state.lastHeightConsensusParamsChanged := by
  have hsuccessive := htraced.successive
  rw [hgenesis.lastBlockHeight] at hsuccessive
  rw [loadConsensusParams_congr htraced.consensusParamsInfo, height_of_done hfound,
    hgenesis.lastBlockHeight]
  exact loadConsensusParams_of_run_iff hgenesis hstart hsuccessive htraced.run
    (htraced.visited done found hdone hfound)

theorem Traced.loadConsensusParams_of_zero (hzero : genDoc.blockStartNum = 0) :
    loadConsensusParams node.db (found.state.lastBlockHeight + 1) =
      .ok found.state.consensusParams := by
  have hsuccessive := htraced.successive
  rw [hgenesis.lastBlockHeight] at hsuccessive
  rw [htraced.loadConsensusParams_iff hgenesis hdone hfound hzero.ge]
  exact (lastHeightConsensusParamsChanged_gt_iff hgenesis hzero.ge hsuccessive htraced.run
    (htraced.visited done found hdone hfound)).mpr (.inl hzero)

theorem Traced.inForce_of_saveState (hfront : before <+: inputs)
    (hbefore : processBlocks crypto wire app (genesisNode genesis content) before = .ok target)
    (hcontents : contents s = contents target.state) :
    (∃ valSet, StateStore.loadValidators (saveState node.db s) (found.state.lastBlockHeight + 1) =
        .ok (some valSet) ∧ valSet.members = found.state.validators.members) ∧
      (loadConsensusParams (saveState node.db s) (found.state.lastBlockHeight + 1) =
          .ok found.state.consensusParams ↔
        loadConsensusParams node.db (found.state.lastBlockHeight + 1) =
          .ok found.state.consensusParams) := by
  obtain ⟨hheight, hvalidators, hparams⟩ := entries_of_contents hcontents
  have hne : found.state.consensusParams ≠ .empty :=
    (validParams_of_run htraced.run hgenesis.validParams found.state
      (List.mem_of_getElem? (htraced.visited done found hdone hfound))).ne_empty
  rw [loadValidators_iff_resolve, loadConsensusParams_iff_resolve hne,
    loadConsensusParams_iff_resolve hne,
    htraced.validatorVersions_saveState hfront hbefore hheight hvalidators,
    htraced.paramVersions_saveState hgenesis hfront hbefore hheight hparams,
    ← loadValidators_iff_resolve]
  exact ⟨htraced.loadValidators hgenesis hdone hfound, Iff.rfl⟩

end Records

section Rollback

variable [LinearOrder Address] {crypto : Crypto PubKey Signature Address}
  {wire : Wire PubKey Signature Address} {app : Application PubKey Signature Address Content}
  {genDoc : GenesisDoc PubKey} {genesis s : State PubKey Address} {content : Content}
  {node target : Node PubKey Signature Address Content} {store : Store Signature Address}
  {before rest : List (Block PubKey Signature Address × Commit Signature Address)}

/-- Deleting the blocks above the target brings the node back to it if there are no other blocks
and the database is already back. -/
theorem rolledBack_iff {count : ℕ} {db : StateDB PubKey Address} (hcount : 0 < count)
    (hnext : (store.db.blockMeta (target.state.lastBlockHeight + 1)).isSome) :
    RolledBack crypto wire app genesis content before target
        (deleteBlocks target.state.lastBlockHeight count
          { store with db := { store.db with descriptor := some target.state.lastBlockHeight } }
          db).1
        (deleteBlocks target.state.lastBlockHeight count
          { store with db := { store.db with descriptor := some target.state.lastBlockHeight } }
          db).2 ↔
      (∃ persisted, db.state = some persisted ∧ contents persisted = contents target.state) ∧
      (∀ height, target.state.lastBlockHeight + count < height →
        (loadBlock wire store height : Fallible RollbackError _) = .ok none) ∧
      ∀ done found, done <+: before →
        processBlocks crypto wire app (genesisNode genesis content) done = .ok found →
          (∃ valSet, loadValidators db (found.state.lastBlockHeight + 1) = .ok (some valSet) ∧
            valSet.members = found.state.validators.members) ∧
          loadConsensusParams db (found.state.lastBlockHeight + 1) =
            .ok found.state.consensusParams := by
  generalize hdescribed : ({ store with
    db := { store.db with descriptor := some target.state.lastBlockHeight } } :
      Store Signature Address) = described
  have hload (height : ℤ) : (loadBlock wire described height : Fallible RollbackError _) =
      loadBlock wire store height := by
    rw [← hdescribed]
    exact loadBlock_congr rfl rfl
  obtain ⟨responses, hdb⟩ : ∃ responses,
      (deleteBlocks target.state.lastBlockHeight count described db).2 =
        { db with abciResponses := responses } := deleteBlocks_db
  rw [hdb]
  constructor
  · intro hrolled
    refine ⟨hrolled.state, fun height hheight ↦ ?_, hrolled.inForce⟩
    rw [← hload, ← loadBlock_deleteBlocks_outside (.inr hheight)]
    exact hrolled.blocks height (by omega)
  · intro ⟨hstate, habove, hinForce⟩
    refine ⟨hstate, ?_, ?_, fun height hheight ↦ ?_, hinForce⟩
    · apply deleteBlocks_height hcount
      rw [← hdescribed]
      exact hnext
    · rw [deleteBlocks_descriptor, ← hdescribed]
    · by_cases hinside : height ≤ target.state.lastBlockHeight + count
      · exact loadBlock_deleteBlocks_inside hheight hinside
      · rw [loadBlock_deleteBlocks_outside (.inr (by omega)), hload]
        exact habove height (by omega)

theorem sources_of_run (hgenesis : IsGenesis genDoc genesis)
    (hread : ∀ input ∈ before ++ rest, wire.readBlock (wire.blockBytes input.1) = some input.1)
    (hbefore : processBlocks crypto wire app (genesisNode genesis content) before = .ok target)
    (hrest : processBlocks crypto wire app target rest = .ok node) (hlow : before ≠ [])
    (hhigh : rest ≠ [])
    (hsame : ∀ height ≤ node.store.height,
      (loadBlock wire store height : Fallible RollbackError _) = loadBlock wire node.store height) :
    ∃ next last validators lastValidators,
      Sources target.state next last validators lastValidators ∧
      targetBlock wire store (target.state.lastBlockHeight + 1) = .ok next ∧
      targetBlock wire store target.state.lastBlockHeight = .ok last ∧
      targetValidators node.db (target.state.lastBlockHeight + 1) = .ok validators ∧
      targetValidators node.db target.state.lastBlockHeight = .ok lastValidators := by
  have hrun : processBlocks crypto wire app (genesisNode genesis content) (before ++ rest) =
      .ok node := by
    rw [processBlocks_append, hbefore]
    exact hrest
  obtain ⟨blocks, states, htraced⟩ := traced_of_run hrun
  obtain ⟨next, others, rfl⟩ := List.exists_cons_of_ne_nil hhigh
  obtain ⟨done, last, rfl⟩ := (List.eq_nil_or_concat' before).resolve_left hlow
  obtain ⟨middle, hmiddle, hlast⟩ := processBlocks_concat hbefore
  have hfromMiddle : processBlocks crypto wire app middle (last :: next :: others) = .ok node := by
    unfold processBlocks
    rw [List.foldlM_cons, hlast]
    exact hrest
  obtain ⟨parts, hashed, hash, hprocessed⟩ := processed_of_processBlock hlast
  have hrecorded := recorded_genesisNode.run hmiddle
  have hheight := hrecorded.height_of_processed hprocessed
  have htop := (hrecorded.run hfromMiddle).storeHeight
  have hlength := hrecorded.height_of_run hfromMiddle
  rw [List.length_cons, List.length_cons] at hlength
  obtain ⟨hloadNext, hvalidNext⟩ :=
    stored_of_run (E := RollbackError) (hrecorded.step hprocessed) (hread next (by simp)) hrest
  obtain ⟨hloadLast, hvalidLast⟩ :=
    stored_of_run (E := RollbackError) hrecorded (hread last (by simp)) hfromMiddle
  obtain ⟨validators, hloadValidators, hvalidators⟩ :=
    htraced.loadValidators hgenesis (List.prefix_append _ _) hbefore
  have hdone : done <+: done ++ [last] ++ next :: others := by
    rw [List.append_assoc]
    exact List.prefix_append _ _
  obtain ⟨lastValidators, hloadLastValidators, hlastValidators⟩ :=
    htraced.loadValidators hgenesis hdone hmiddle
  rw [← hheight] at hloadLast hloadLastValidators
  obtain ⟨hlastBlockID, happHash, hlastResultsHash, -⟩ := header_of_validateBlock hvalidNext
  obtain ⟨-, -, -, htotalTxs⟩ := header_of_validateBlock hvalidLast
  refine ⟨next.1, last.1, validators, lastValidators, ?_, ?_, ?_,
    targetValidators_of_load hloadValidators, targetValidators_of_load hloadLastValidators⟩
  · exact {
      appHash := happHash
      lastBlockID := hlastBlockID
      lastResultsHash := hlastResultsHash
      totalTxs := by rw [htotalTxs, hprocessed.follows.lastBlockTotalTx]
      time := hprocessed.follows.lastBlockTime.symm
      validators := hvalidators
      lastValidators := by rw [hlastValidators, hprocessed.follows.lastValidators] }
  · exact targetBlock_of_load ((hsame _ (by omega)).trans hloadNext)
  · exact targetBlock_of_load ((hsame _ (by omega)).trans hloadLast)

/-- A rollback to a height of a run returns if the chain starts at height 0. It restores the node of
that height exactly if the chain starts at height 0, no block is stored above the state, and the
three fields that it does not reset have not changed since. -/
theorem rollback_restores_iff {now : ℤ}
    (hgenesis : makeGenesisState crypto now genDoc = .ok genesis)
    (hstart : 0 ≤ genDoc.blockStartNum)
    (hread : ∀ input ∈ before ++ rest, wire.readBlock (wire.blockBytes input.1) = some input.1)
    (hbefore : processBlocks crypto wire app (genesisNode genesis content) before = .ok target)
    (hrest : processBlocks crypto wire app target rest = .ok node) (hlow : before ≠ [])
    (hhigh : rest ≠ []) (hstore : StoreAhead wire node store) (hsaved : node.db.state = some s) :
    (genDoc.blockStartNum = 0 →
      ∃ result, rollbackBlocks wire target.state.lastBlockHeight store s node.db = .ok result) ∧
    ∀ store' db', rollbackBlocks wire target.state.lastBlockHeight store s node.db =
        .ok (store', db') →
      (RolledBack crypto wire app genesis content before target store' db' ↔
        genDoc.blockStartNum = 0 ∧ store.height = node.state.lastBlockHeight ∧
        node.state.lastHeightValidatorsChanged = target.state.lastHeightValidatorsChanged ∧
        node.state.lastHeightConsensusParamsChanged =
          target.state.lastHeightConsensusParamsChanged ∧
        node.state.coinbase = target.state.coinbase) := by
  have hmade := isGenesis_of_makeGenesisState hgenesis
  have hrun : processBlocks crypto wire app (genesisNode genesis content) (before ++ rest) =
      .ok node := by
    rw [processBlocks_append, hbefore]
    exact hrest
  have hrecorded := recorded_genesisNode.run hrun
  have hfront : before <+: before ++ rest := List.prefix_append _ _
  obtain ⟨blocks, states, htraced⟩ := traced_of_run hrun
  obtain ⟨next, last, validators, lastValidators, hsources, hnext, hlast, hvalidators,
    hlastValidators⟩ := sources_of_run hmade hread hbefore hrest hlow hhigh
      fun _ hheight ↦ hstore.loadBlock hheight
  have hs : s = writtenState node.state := by
    rw [hrecorded.saved] at hsaved
    exact (Option.some.inj hsaved).symm
  have hlength : 0 < rest.length := List.length_pos_of_ne_nil hhigh
  have hheight := (recorded_genesisNode.run hbefore).height_of_run hrest
  have hcurrent : s.lastBlockHeight = target.state.lastBlockHeight + rest.length := by
    rw [hs, ← hheight]
    rfl
  have hchainID : s.chainID = target.state.chainID := by
    rw [hs]
    exact processBlocks_induct (motive := fun found ↦ found.state.chainID = target.state.chainID)
      hrest rfl fun hprocessed hfound ↦ hprocessed.follows.chainID.trans hfound
  have hrollback := rollbackBlocks_eq hcurrent hlength hnext hlast hvalidators hlastValidators
  constructor
  · intro hzero
    rw [hrollback, htraced.loadConsensusParams_of_zero hmade hfront hbefore hzero]
    exact ⟨_, rfl⟩
  intro store' db' hresult
  rw [hrollback, Results.bind_eq_ok_iff] at hresult
  obtain ⟨params, hparams, hreturn⟩ := hresult
  rw [Results.mapError_eq_ok_iff] at hparams
  have hsame : contents (rolledState s target.state.lastBlockHeight next last validators
      lastValidators params) = contents target.state ↔ _ :=
    hsources.contents_rolledState_iff hchainID
  rw [show store' = _ from congrArg Prod.fst (Except.ok.inj hreturn).symm,
    show db' = _ from congrArg Prod.snd (Except.ok.inj hreturn).symm,
    rolledBack_iff hlength (blockMeta_of_targetBlock hnext), ← hheight,
    hstore.above_iff hrecorded]
  constructor
  · intro ⟨⟨persisted, hpersisted, hcontents⟩, habove, hinForce⟩
    cases hpersisted
    obtain ⟨hsameParams, hsameValidators, hsameChanged, hsameCoinbase⟩ := hsame.mp hcontents
    rw [hs] at hsameValidators hsameChanged hsameCoinbase
    refine ⟨?_, habove, hsameValidators, hsameChanged, hsameCoinbase⟩
    -- the first parameters are filed under height 1, before the first record of a later start
    have hfirst := (htraced.inForce_of_saveState hmade List.nil_prefix rfl hfront hbefore
      hcontents).2.mp (hinForce [] _ List.nil_prefix rfl).2
    rw [htraced.loadConsensusParams_iff hmade List.nil_prefix rfl hstart] at hfirst
    have hchanged : genDoc.blockStartNum < 1 :=
      hfirst.trans_eq hmade.lastHeightConsensusParamsChanged
    omega
  · intro ⟨hzero, habove, hsameValidators, hsameChanged, hsameCoinbase⟩
    rw [htraced.loadConsensusParams_of_zero hmade hfront hbefore hzero, Except.ok.injEq] at hparams
    have hcontents := hsame.mpr (by
      rw [hs]
      exact ⟨hparams.symm, hsameValidators, hsameChanged, hsameCoinbase⟩)
    refine ⟨⟨_, rfl, hcontents⟩, habove, fun done found hdone hfound ↦ ?_⟩
    have hinForce := htraced.inForce_of_saveState hmade (hdone.trans hfront) hfound hfront hbefore
      hcontents
    exact ⟨hinForce.1, hinForce.2.mpr
      (htraced.loadConsensusParams_of_zero hmade (hdone.trans hfront) hfound hzero)⟩

end Rollback

/-- A rollback of the second block, which has the coinbase of the first one. -/
theorem rollback_of_quiet_block : ∃ target node store db,
    processBlocks sampleCrypto (chainWire [firstBlock 0, secondBlock "first"]) quietApp
      (genesisNode (sampleState 0) 0) [(firstBlock 0, sampleCommit 1)] = .ok target ∧
    processBlocks sampleCrypto (chainWire [firstBlock 0, secondBlock "first"]) quietApp target
      [(secondBlock "first", sampleCommit 2)] = .ok node ∧
    rollbackBlocks (chainWire [firstBlock 0, secondBlock "first"]) 1 node.store
      (writtenState node.state) node.db = .ok (store, db) ∧
    RolledBack sampleCrypto (chainWire [firstBlock 0, secondBlock "first"]) quietApp (sampleState 0)
      0 [(firstBlock 0, sampleCommit 1)] target store db := by
  have hgenesis : makeGenesisState sampleCrypto 0 (sampleGenesis 0) = .ok (sampleState 0) := rfl
  have hread : ∀ input ∈ [(firstBlock 0, sampleCommit 1)] ++
    [(secondBlock "first", sampleCommit 2)],
      (chainWire [firstBlock 0, secondBlock "first"]).readBlock
        ((chainWire [firstBlock 0, secondBlock "first"]).blockBytes input.1) = some input.1 := by
    decide
  obtain ⟨target, node, hbefore, hrest, hheight, hsaved, hsame⟩ : ∃ target node,
      processBlocks sampleCrypto (chainWire [firstBlock 0, secondBlock "first"]) quietApp
        (genesisNode (sampleState 0) 0) [(firstBlock 0, sampleCommit 1)] = .ok target ∧
      processBlocks sampleCrypto (chainWire [firstBlock 0, secondBlock "first"]) quietApp target
        [(secondBlock "first", sampleCommit 2)] = .ok node ∧
      target.state.lastBlockHeight = 1 ∧ node.db.state = some (writtenState node.state) ∧
      node.store.height = node.state.lastBlockHeight ∧
      node.state.lastHeightValidatorsChanged = target.state.lastHeightValidatorsChanged ∧
      node.state.lastHeightConsensusParamsChanged = target.state.lastHeightConsensusParamsChanged ∧
      node.state.coinbase = target.state.coinbase :=
    ⟨_, _, rfl, rfl, rfl, rfl, rfl, rfl, rfl, rfl⟩
  obtain ⟨hreturns, hrolled⟩ := rollback_restores_iff hgenesis le_rfl hread hbefore hrest
    (List.cons_ne_nil _ _) (List.cons_ne_nil _ _) (.inl rfl) hsaved
  obtain ⟨⟨store, db⟩, hresult⟩ := hreturns rfl
  refine ⟨target, node, store, db, hbefore, hrest, ?_, (hrolled store db hresult).mpr ⟨rfl, hsame⟩⟩
  rw [← hheight]
  exact hresult

/-- An application that adds a validator in the second block. -/
def growingApp : Application UInt8 UInt8 ℕ ℕ :=
  countingApp fun count ↦ if count = 1 then ⟨[], [⟨[2], 2⟩], none⟩ else noUpdates

/-- After the second block has been rolled back, its new validator is in force at height 2. -/
theorem rollback_keeps_new_validator : ∃ target node store db valSet,
    processBlocks sampleCrypto twoBlockWire growingApp (genesisNode (sampleState 0) 0)
      [(firstBlock 0, sampleCommit 1)] = .ok target ∧
    processBlocks sampleCrypto twoBlockWire growingApp target
      [(secondBlock "second", sampleCommit 2)] = .ok node ∧
    rollbackBlocks twoBlockWire 1 node.store (writtenState node.state) node.db = .ok (store, db) ∧
    loadValidators db 2 = .ok (some valSet) ∧
    valSet.members = [(1, 1, 10), (2, 2, 2)] ∧ target.state.validators.members = [(1, 1, 10)] ∧
    db.state.map State.lastHeightValidatorsChanged = some 3 ∧
    target.state.lastHeightValidatorsChanged = 1 :=
  ⟨_, _, _, _, _, rfl, rfl, rfl, rfl, rfl, rfl, rfl, rfl⟩

end LkChain.Tendermint.Rollback
