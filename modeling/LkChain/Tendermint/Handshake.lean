import LkChain.Tendermint.Execution

/-!
# Restarting after a crash

A node that crashes in the middle of a block has stored some of it. When it restarts, `Handshake`
compares the heights of the block store, the state and the application and replays what is missing.
The crash points are those between the persistent steps of a block. `Handshake` recovers from all of
them but two. When the application has not committed the first block of the chain, it takes the
height of the application for that of a new chain, calls `InitChain` and leaves without replaying
the block that is already in the store. When it has not committed a later block, the block is
replayed after `InitChain`, which may have changed how the application answers it.
-/

namespace LkChain.Tendermint.Handshake

open Foundation Foundation.Stops Tendermint.Types ValSet ChainState StateStore History BlockStore
    Execution
open Validators.ParseTx (Bytes Crypto sampleCrypto)

variable {PubKey Signature Address Content : Type}

/-- What a node leaves behind when it stops. -/
structure Disk (PubKey Signature Address Content : Type) where
  store : BlockDB Signature Address
  db : StateDB PubKey Address
  app : AppState Content

section Program

variable [LinearOrder Address] (crypto : Crypto PubKey Signature Address)
  (wire : Wire PubKey Signature Address) (app : Application PubKey Signature Address Content)

/-- `TM2PB.Validators`. -/
def abciValidators (valSet : ValidatorSet PubKey Address) : List Validators.TxBased.Validator :=
  valSet.validators.map fun v ↦ ⟨crypto.bytes v.pubKey, v.votingPower⟩

/-- The application after `InitChain` with the validators of a state. -/
def initChain (s : State PubKey Address) (appState : AppState Content) : AppState Content :=
  { appState with content := app.initChain appState.content (abciValidators crypto s.validators) }

def checkAppHash (s : State PubKey Address) (appHash : Bytes) :
    Fallible (NodeError Signature Address) Unit :=
  if s.appHash ≠ appHash then
    .error (.panic (.sanity "Tendermint state.AppHash does not match AppHash after replay"))
  else .ok ()

variable (store : Store Signature Address)

/-- `replayBlock` with an application that gives these answers: what is saved, the next state and
the block. -/
def replayBlock (db : StateDB PubKey Address) (s : State PubKey Address) (height : ℤ)
    (answers : Block PubKey Signature Address → ABCIResponses × Bytes) :
    Fallible (NodeError Signature Address)
      (StateDB PubKey Address × State PubKey Address × Block PubKey Signature Address) :=
  match store.db.blockMeta height with
  | none => .error (.panic .nilDereference)
  | some blockMeta => do
    match ← loadBlock wire store height with
    | none => .error (.panic .nilDereference)
    | some block =>
      let (responses, appHash) := answers block
      let (db, s) ← applyBlock crypto wire db s blockMeta.blockID block responses appHash
      return (db, s, block)

/-- The answers of the application itself. -/
def realAnswers (appState : AppState Content) (block : Block PubKey Signature Address) :
    ABCIResponses × Bytes :=
  (app.exec appState.content block, app.hash (app.next appState.content block))

/-- The loop of `replayBlocks`, which has the application execute and commit blocks. -/
def execBlocks : ℕ → ℤ → AppState Content →
    Fallible (NodeError Signature Address) (AppState Content)
  | 0, _, appState => .ok appState
  | count + 1, height, appState => do
    match ← loadBlock wire store height with
    | none => .error (.panic .nilDereference)
    | some block => execBlocks count (height + 1) (app.commit appState block)

/-- `replayBlocks`. -/
def replayBlocksFrom (db : StateDB PubKey Address) (s : State PubKey Address)
    (appState : AppState Content) (appBlockHeight : ℤ) (mutateState : Bool) :
    Fallible (NodeError Signature Address) (StateDB PubKey Address × AppState Content) := do
  let finalBlock := if mutateState then store.height - 1 else store.height
  let replayed ← execBlocks wire app store (finalBlock - appBlockHeight).toNat (appBlockHeight + 1)
    appState
  if mutateState then
    let (db, _, block) ← replayBlock crypto wire store db s store.height (realAnswers app replayed)
    return (db, app.commit replayed block)
  else
    checkAppHash s (if finalBlock ≤ appBlockHeight then [] else app.hash replayed.content)
    return (db, replayed)

/-- `ReplayBlocks` on an application that is not at genesis. -/
def replayToStore (db : StateDB PubKey Address) (s : State PubKey Address)
    (appState : AppState Content) (appHash : Bytes) (appBlockHeight : ℤ) :
    Fallible (NodeError Signature Address) (StateDB PubKey Address × AppState Content) :=
  if store.height = 0 then do
    checkAppHash s appHash
    return (db, appState)
  else if store.height < appBlockHeight then
    .error (.error (.appBlockHeightTooHigh store.height appBlockHeight))
  else if store.height < s.lastBlockHeight then
    .error (.panic (.sanity "StateBlockHeight > StoreBlockHeight"))
  else if s.lastBlockHeight + 1 < store.height then
    .error (.panic (.sanity "StoreBlockHeight > StateBlockHeight + 1"))
  else if store.height = s.lastBlockHeight then
    if appBlockHeight < store.height then
      replayBlocksFrom crypto wire app store db s appState appBlockHeight false
    else do
      checkAppHash s appHash
      return (db, appState)
  else if appBlockHeight < s.lastBlockHeight then
    replayBlocksFrom crypto wire app store db s appState appBlockHeight true
  else if appBlockHeight = s.lastBlockHeight then do
    let (db, _, block) ← replayBlock crypto wire store db s store.height (realAnswers app appState)
    return (db, app.commit appState block)
  else do
    let responses ← (loadABCIResponses db store.height).mapError fun error ↦ .error (.load error)
    let (db, _, _) ← replayBlock crypto wire store db s store.height fun _ ↦ (responses, appHash)
    return (db, appState)

def replayBlocks (db : StateDB PubKey Address) (s : State PubKey Address)
    (appState : AppState Content) (appHash : Bytes) (appBlockHeight : ℤ) :
    Fallible (NodeError Signature Address) (StateDB PubKey Address × AppState Content) :=
  if appBlockHeight = 0 then
    if 0 < store.height then .ok (db, initChain crypto app s appState)
    else replayToStore crypto wire app store db s (initChain crypto app s appState) appHash 0
  else replayToStore crypto wire app store db s appState appHash appBlockHeight

/-- The height of the application as `Handshake` takes it. -/
def handshakeHeight (s : State PubKey Address) (blockHeight : ℤ) : ℤ :=
  if s.lastValidators.size = 0 ∧ 0 < s.lastBlockHeight ∧ s.lastBlockHeight = blockHeight then 0
  else blockHeight

def handshake (db : StateDB PubKey Address) (s : State PubKey Address)
    (appState : AppState Content) :
    Fallible (NodeError Signature Address) (StateDB PubKey Address × AppState Content) :=
  if appState.height < 0 then .error (.error (.negativeHeight appState.height))
  else
    let blockHeight := handshakeHeight s appState.height
    let seeded := if 0 < blockHeight then initChain crypto app s appState else appState
    replayBlocks crypto wire app store db s seeded (app.hash appState.content) blockHeight

/-- Starting a node, up to `NewBlockchainReactor`. The state is that of the database, or that of
genesis. -/
def restart (genesis : State PubKey Address) (disk : Disk PubKey Signature Address Content) :
    Fallible (NodeError Signature Address) (Node PubKey Signature Address Content) := do
  let store := newBlockStore disk.store
  let db := if disk.db.state.isSome then disk.db else saveState disk.db genesis
  let (db, appState) ← handshake crypto wire app store db (disk.db.state.getD genesis) disk.app
  let s := db.state.getD genesis
  if s.lastBlockHeight ≠ store.height then
    .error (.panic (.sanity "state and store height mismatch"))
  else return ⟨store, db, appState, s⟩

end Program

/-! ## Crash points -/

/-- The points between the persistent steps of a block at which a node can stop. -/
inductive CrashPoint where
  | beforeSaveBlock
  | afterSaveBlock
  | afterSaveABCIResponses
  | afterCommit
  | afterSaveState
deriving DecidableEq

/-- What is left behind at a crash point in a block that would have led from one node to the
next. -/
def crashDisk (app : Application PubKey Signature Address Content) (point : CrashPoint)
    (node : Node PubKey Signature Address Content) (block : Block PubKey Signature Address)
    (after : Node PubKey Signature Address Content) : Disk PubKey Signature Address Content :=
  let responded := saveABCIResponses node.db block.header.height (app.exec node.app.content block)
  match point with
  | .beforeSaveBlock => ⟨node.store.db, node.db, node.app⟩
  | .afterSaveBlock => ⟨after.store.db, node.db, node.app⟩
  | .afterSaveABCIResponses => ⟨after.store.db, responded, node.app⟩
  | .afterCommit => ⟨after.store.db, responded, after.app⟩
  | .afterSaveState => ⟨after.store.db, after.db, after.app⟩

section Recovery

variable {crypto : Crypto PubKey Signature Address}
  {wire : Wire PubKey Signature Address} {app : Application PubKey Signature Address Content}
  {node after : Node PubKey Signature Address Content} {genesis s : State PubKey Address}
  {store : Store Signature Address} {db : StateDB PubKey Address} {appState : AppState Content}
  {block : Block PubKey Signature Address} {seenCommit : Commit Signature Address}
  {parts : PartSet} {hashed : Header} {hash : Bytes} {start : ℤ}

theorem newBlockStore_of_settled (hsettled : Settled app start node) :
    newBlockStore node.store.db = node.store := by
  unfold newBlockStore
  rw [hsettled.descriptor, Option.getD_some]

/-- `InitChain` leaves the chain of the application as it is, and so its hash. -/
def KeepsHash (app : Application PubKey Signature Address Content) : Prop :=
  ∀ content validators, app.hash (app.initChain content validators) = app.hash content

/-- `InitChain` with the validators of a state does not change how the application answers the
block. -/
def AnswersAlike (crypto : Crypto PubKey Signature Address)
    (app : Application PubKey Signature Address Content) (s : State PubKey Address)
    (appState : AppState Content) (block : Block PubKey Signature Address) : Prop :=
  realAnswers app (initChain crypto app s appState) block = realAnswers app appState block

theorem checkAppHash_of_settled (hsettled : Settled app start node) :
    checkAppHash (writtenState node.state) (app.hash node.app.content) =
      (.ok () : Fallible (NodeError Signature Address) Unit) := by
  unfold checkAppHash
  rw [hsettled.appHash]
  exact if_neg (not_not.mpr rfl)

/-- The application is taken to be at genesis before the first block. -/
theorem handshakeHeight_of_settled (hstart : 0 ≤ start) (hsettled : Settled app start node) :
    handshakeHeight (writtenState node.state) node.state.lastBlockHeight =
      if node.state.lastBlockHeight = start then 0 else node.state.lastBlockHeight := by
  have hlast : (writtenState node.state).lastValidators.size = 0 ↔
    node.state.lastBlockHeight = start := hsettled.lastValidators
  have hheight : (writtenState node.state).lastBlockHeight = node.state.lastBlockHeight := rfl
  unfold handshakeHeight
  by_cases hfirst : node.state.lastBlockHeight = start
  · have hsize := hlast.mpr hfirst
    rw [if_pos hfirst]
    split <;> omega
  · rw [if_neg hfirst]
    exact if_neg fun h ↦ hfirst (hlast.mp h.1)

variable [LinearOrder Address]

/-- With the application at genesis and blocks in the store, `Handshake` does not replay any. -/
theorem handshake_of_zero (happ : 0 ≤ appState.height)
    (hheight : handshakeHeight s appState.height = 0) (hstore : 0 < store.height) :
    handshake crypto wire app store db s appState =
      .ok (db, initChain crypto app s appState) := by
  unfold handshake replayBlocks
  rw [if_neg (by omega)]
  simp only [hheight, if_true, if_pos hstore, lt_self_iff_false, if_false]

theorem handshake_of_pos (happ : 0 < appState.height)
    (hheight : handshakeHeight s appState.height = appState.height) :
    handshake crypto wire app store db s appState =
      replayToStore crypto wire app store db s (initChain crypto app s appState)
        (app.hash appState.content) appState.height := by
  unfold handshake replayBlocks
  rw [if_neg (by omega)]
  simp only [hheight, if_pos happ, if_neg (by omega : ¬ appState.height = 0)]

theorem handshake_of_settled (hstart : 0 ≤ start) (hsettled : Settled app start node) :
    handshake crypto wire app node.store node.db (writtenState node.state) node.app =
      .ok (node.db, initChain crypto app node.state node.app) := by
  have hlow := hsettled.start_le
  have hstore := hsettled.storeHeight
  have happ := hsettled.appHeight
  have hcheck := checkAppHash_of_settled hsettled
  have hheight := handshakeHeight_of_settled hstart hsettled
  have hstate : (writtenState node.state).lastBlockHeight = node.state.lastBlockHeight := rfl
  rw [← happ] at hheight
  by_cases hfirst : node.app.height = start
  · rw [if_pos hfirst] at hheight
    by_cases hpos : 0 < node.store.height
    · exact handshake_of_zero (by omega) hheight hpos
    · unfold handshake replayBlocks replayToStore
      rw [if_neg (by omega)]
      simp only [hheight, if_neg hpos, lt_self_iff_false, if_false, if_true,
        if_pos (by omega : node.store.height = 0), hcheck]
      rfl
  · rw [if_neg hfirst] at hheight
    rw [handshake_of_pos (by omega) hheight]
    unfold replayToStore
    rw [if_neg (by omega), if_neg (by omega), if_neg (by omega), if_neg (by omega),
      if_pos (by omega), if_neg (by omega), hcheck]
    rfl

theorem replayBlock_of_processed
    (hprocessed : Processed crypto wire app node block seenCommit after parts hashed hash)
    (hread : wire.readBlock (wire.blockBytes block) = some block)
    (hinfo : db.validatorsInfo = node.db.validatorsInfo)
    (hsaved : saveABCIResponses db block.header.height (app.exec node.app.content block) =
      saveABCIResponses node.db block.header.height (app.exec node.app.content block))
    (answers : Block PubKey Signature Address → ABCIResponses × Bytes)
    (hanswers : answers block = realAnswers app node.app block) :
    ∃ next, replayBlock crypto wire after.store db (writtenState node.state) block.header.height
      answers = .ok (after.db, next, block) := by
  have hmeta : after.store.db.blockMeta block.header.height =
      some ⟨⟨hash, parts.header⟩, hashed⟩ := by
    rw [hprocessed.stored]
    exact Function.update_self _ _ _
  have hload : (loadBlock wire after.store block.header.height :
      Fallible (NodeError Signature Address) _) = .ok (some block) := by
    rw [hprocessed.stored]
    exact loadBlock_withBlock hprocessed.cut hread
  refine ⟨{ after.state with lastValidators := written after.state.lastValidators }, ?_⟩
  unfold replayBlock
  rw [hmeta]
  dsimp only
  rw [hload]
  show (do
    let (db, s) ← applyBlock crypto wire db (writtenState node.state) ⟨hash, parts.header⟩ block
      (answers block).1 (answers block).2
    return (db, s, block)) = _
  rw [hanswers, realAnswers, applyBlock_written hinfo hsaved hprocessed.applied]
  rfl

/-- The application has not committed the block: it is replayed on the application itself, after
`InitChain`, unless it is the first one. -/
theorem handshake_before_commit (hstart : 0 ≤ start) (hsettled : Settled app start node)
    (hprocessed : Processed crypto wire app node block seenCommit after parts hashed hash) :
    handshake crypto wire app after.store db (writtenState node.state) node.app =
      if node.state.lastBlockHeight = start then .ok (db, initChain crypto app node.state node.app)
      else do
        let (db, _, block) ← replayBlock crypto wire after.store db (writtenState node.state)
          block.header.height (realAnswers app (initChain crypto app node.state node.app))
        return (db, app.commit (initChain crypto app node.state node.app) block) := by
  have hlow := hsettled.start_le
  have happ := hsettled.appHeight
  have hheight := handshakeHeight_of_settled hstart hsettled
  have hstate : (writtenState node.state).lastBlockHeight = node.state.lastBlockHeight := rfl
  have hblock : after.store.height = block.header.height := by
    rw [hprocessed.stored]
    rfl
  have hstore : after.store.height = node.state.lastBlockHeight + 1 := by
    rw [hblock, hprocessed.contiguous, hsettled.storeHeight]
  rw [← happ] at hheight ⊢
  by_cases hfirst : node.app.height = start
  · rw [if_pos hfirst] at hheight ⊢
    exact handshake_of_zero (by omega) hheight (by omega)
  · rw [if_neg hfirst] at hheight ⊢
    rw [handshake_of_pos (by omega) hheight]
    unfold replayToStore
    rw [if_neg (by omega), if_neg (by omega), if_neg (by omega), if_neg (by omega),
      if_neg (by omega), if_neg (by omega), if_pos (by omega), hblock]
    rfl

/-- The application has committed the block: it is replayed with the saved responses. -/
theorem handshake_after_commit (hstart : 0 ≤ start) (hsettled : Settled app start node)
    (hprocessed : Processed crypto wire app node block seenCommit after parts hashed hash)
    (hread : wire.readBlock (wire.blockBytes block) = some block) :
    handshake crypto wire app after.store
        (saveABCIResponses node.db block.header.height (app.exec node.app.content block))
        (writtenState node.state) after.app =
      .ok (after.db, initChain crypto app node.state after.app) := by
  have hlow := hsettled.start_le
  have hstate : (writtenState node.state).lastBlockHeight = node.state.lastBlockHeight := rfl
  have happ : after.app.height = node.state.lastBlockHeight + 1 := by
    rw [hprocessed.committed, ← hsettled.appHeight]
    rfl
  have hblock : after.store.height = block.header.height := by
    rw [hprocessed.stored]
    rfl
  have hstore : after.store.height = node.state.lastBlockHeight + 1 := by
    rw [hblock, hprocessed.contiguous, hsettled.storeHeight]
  have hheight : handshakeHeight (writtenState node.state) after.app.height =
      after.app.height := by
    unfold handshakeHeight
    exact if_neg fun h ↦ by omega
  rw [handshake_of_pos (by omega) hheight]
  unfold replayToStore
  rw [if_neg (by omega), if_neg (by omega), if_neg (by omega), if_neg (by omega),
    if_neg (by omega), if_neg (by omega), if_neg (by omega), hblock, loadABCIResponses_save]
  have hinfo : (saveABCIResponses node.db block.header.height
    (app.exec node.app.content block)).validatorsInfo = node.db.validatorsInfo := rfl
  have hanswers : (app.exec node.app.content block, app.hash after.app.content) =
      realAnswers app node.app block := by
    rw [hprocessed.committed]
    rfl
  obtain ⟨next, hreplay⟩ := replayBlock_of_processed hprocessed hread hinfo saveABCIResponses_twice
    (fun _ ↦ (app.exec node.app.content block, app.hash after.app.content)) hanswers
  show (do
    let (db, _, _) ← replayBlock crypto wire after.store _ (writtenState node.state)
      block.header.height _
    return (db, initChain crypto app node.state after.app)) = _
  rw [hreplay]
  rfl

theorem restart_eq {disk : Disk PubKey Signature Address Content} (hsaved : disk.db.state = some s)
    (hhandshake : handshake crypto wire app (newBlockStore disk.store) disk.db s disk.app =
      .ok (db, appState)) :
    restart crypto wire app genesis disk =
      if (db.state.getD genesis).lastBlockHeight ≠ (newBlockStore disk.store).height then
        .error (.panic (.sanity "state and store height mismatch"))
      else .ok ⟨newBlockStore disk.store, db, appState, db.state.getD genesis⟩ := by
  unfold restart
  simp only [hsaved, Option.isSome_some, if_true, Option.getD_some, hhandshake]
  rfl

/-- The restarted node agrees in all its heights, and it has the store, the database, the state and
the hash of the uninterrupted run. -/
structure Recovered (app : Application PubKey Signature Address Content)
    (recovered uninterrupted : Node PubKey Signature Address Content) : Prop where
  appHeight : recovered.app.height = recovered.state.lastBlockHeight
  storeHeight : recovered.store.height = recovered.state.lastBlockHeight
  store : recovered.store = uninterrupted.store
  db : recovered.db = uninterrupted.db
  state : recovered.state = writtenState uninterrupted.state
  hash : app.hash recovered.app.content = app.hash uninterrupted.app.content

/-- The restart ends, with such a node. -/
def Recovers (app : Application PubKey Signature Address Content)
    (result : Fallible (NodeError Signature Address) (Node PubKey Signature Address Content))
    (uninterrupted : Node PubKey Signature Address Content) : Prop :=
  ∃ recovered, result = .ok recovered ∧ Recovered app recovered uninterrupted

/-- A handshake that leaves what a settled node has stored, and its hash, restarts that node. -/
theorem recovers_of_handshake {disk : Disk PubKey Signature Address Content}
    (hsettled : Settled app start node) (hstore : disk.store = node.store.db)
    (hsaved : disk.db.state = some s)
    (hhandshake : handshake crypto wire app node.store disk.db s disk.app =
      .ok (node.db, appState))
    (hheight : appState.height = node.app.height)
    (hhash : app.hash appState.content = app.hash node.app.content) :
    Recovers app (restart crypto wire app genesis disk) node := by
  have hnew := newBlockStore_of_settled hsettled
  rw [← hstore] at hnew
  rw [← hnew] at hhandshake
  refine ⟨⟨node.store, node.db, appState, writtenState node.state⟩, ?_, ?_⟩
  · rw [restart_eq hsaved hhandshake, hnew, hsettled.saved, Option.getD_some]
    exact if_neg (not_not.mpr hsettled.storeHeight.symm)
  · exact ⟨hheight.trans hsettled.appHeight, hsettled.storeHeight, rfl, rfl, rfl, hhash⟩

/-- The ways through `replayBlock`. -/
theorem applied_of_replayBlock {height : ℤ} {saved : StateDB PubKey Address}
    {next : State PubKey Address} {answers : Block PubKey Signature Address → ABCIResponses × Bytes}
    (hreplay : replayBlock crypto wire store db s height answers = .ok (saved, next, block)) :
    (loadBlock wire store height : Fallible (NodeError Signature Address) _) = .ok (some block) ∧
      ∃ blockID, nextState crypto wire s ⟨blockID, block.header, (answers block).1,
        (answers block).2⟩ = .ok next ∧
      saved = saveState (saveABCIResponses db block.header.height (answers block).1) next := by
  unfold replayBlock at hreplay
  split at hreplay
  next => cases hreplay
  next blockMeta _ =>
    rw [Results.bind_eq_ok_iff] at hreplay
    obtain ⟨found, hload, hfound⟩ := hreplay
    split at hfound
    next => cases hfound
    next loaded =>
      rw [Results.bind_eq_ok_iff] at hfound
      obtain ⟨⟨_, applied⟩, happly, hreturn⟩ := hfound
      cases hreturn
      obtain ⟨-, hnext, hsaved⟩ := applyBlock_eq_ok_iff.mp happly
      exact ⟨hload, blockMeta.blockID, hnext, hsaved⟩

/-- The saved responses and the hash of a recovered node are those of the replay. -/
theorem answersAlike_of_recovers
    (hprocessed : Processed crypto wire app node block seenCommit after parts hashed hash)
    (hread : wire.readBlock (wire.blockBytes block) = some block)
    (hstate : db.state = some (writtenState node.state))
    (hnew : newBlockStore after.store.db = after.store)
    (hhandshake : handshake crypto wire app after.store db (writtenState node.state) node.app = do
      let (db, _, block) ← replayBlock crypto wire after.store db (writtenState node.state)
        block.header.height (realAnswers app (initChain crypto app node.state node.app))
      return (db, app.commit (initChain crypto app node.state node.app) block))
    (hrecovers : Recovers app
      (restart crypto wire app genesis ⟨after.store.db, db, node.app⟩) after) :
    AnswersAlike crypto app node.state node.app block := by
  obtain ⟨recovered, hrestart, hrecovered⟩ := hrecovers
  rw [← hnew] at hhandshake
  cases hreplay : replayBlock crypto wire after.store db (writtenState node.state)
      block.header.height (realAnswers app (initChain crypto app node.state node.app)) with
  | error stop =>
    rw [hnew, hreplay] at hhandshake
    unfold restart at hrestart
    simp only [hstate, hnew, Option.getD_some, Option.isSome_some, if_true, hhandshake] at hrestart
    cases hrestart
  | ok result =>
    obtain ⟨saved, next, loaded⟩ := result
    rw [hnew, hreplay, ← hnew] at hhandshake
    have hresult : restart crypto wire app genesis ⟨after.store.db, db, node.app⟩ = _ :=
      restart_eq hstate hhandshake
    rw [hresult, Results.ite_error_eq_ok_iff] at hrestart
    cases hrestart.2
    obtain ⟨hload, blockID, -, hsaved⟩ := applied_of_replayBlock hreplay
    have hblock : (loadBlock wire after.store block.header.height :
        Fallible (NodeError Signature Address) _) = .ok (some block) := by
      rw [hprocessed.stored]
      exact loadBlock_withBlock hprocessed.cut hread
    cases hload.symm.trans hblock
    have hdb := hrecovered.db
    rw [hsaved, (applyBlock_eq_ok_iff.mp hprocessed.applied).2.2] at hdb
    have hresponses := congrArg (fun db ↦ db.abciResponses block.header.height) hdb
    have hkept (db : StateDB PubKey Address) (responses : ABCIResponses)
      (s : State PubKey Address) :
        (saveState (saveABCIResponses db block.header.height responses) s).abciResponses
          block.header.height = some responses := Function.update_self _ _ _
    dsimp only at hresponses
    rw [hkept, hkept] at hresponses
    have hhash := hrecovered.hash
    rw [hprocessed.committed] at hhash
    exact Prod.ext (Option.some.inj hresponses) hhash

/-- A crash after the block has been saved and before the application has committed it. -/
theorem recovers_before_commit_iff (hstart : 0 ≤ start) (hsettled : Settled app start node)
    (hprocessed : Processed crypto wire app node block seenCommit after parts hashed hash)
    (hread : wire.readBlock (wire.blockBytes block) = some block)
    (hinfo : db.validatorsInfo = node.db.validatorsInfo)
    (hsaved : saveABCIResponses db block.header.height (app.exec node.app.content block) =
      saveABCIResponses node.db block.header.height (app.exec node.app.content block))
    (hstate : db.state = node.db.state) :
    Recovers app (restart crypto wire app genesis ⟨after.store.db, db, node.app⟩) after ↔
      node.state.lastBlockHeight ≠ start ∧ AnswersAlike crypto app node.state node.app block := by
  have hafter := hsettled.step hprocessed
  have hnew := newBlockStore_of_settled hafter
  have hhandshake : handshake crypto wire app after.store db (writtenState node.state) node.app =
    _ :=
    handshake_before_commit hstart hsettled hprocessed
  rw [hsettled.saved] at hstate
  by_cases hfirst : node.state.lastBlockHeight = start
  · rw [if_pos hfirst, ← hnew] at hhandshake
    refine ⟨fun ⟨recovered, hrestart, _⟩ ↦ ?_, fun h ↦ absurd hfirst h.1⟩
    have hresult : restart crypto wire app genesis ⟨after.store.db, db, node.app⟩ = _ :=
      restart_eq hstate hhandshake
    rw [hresult, hnew, hstate, Option.getD_some, if_pos] at hrestart
    · cases hrestart
    · show node.state.lastBlockHeight ≠ after.store.height
      rw [hafter.storeHeight, hprocessed.follows.lastBlockHeight, hprocessed.contiguous,
        hsettled.storeHeight]
      omega
  · rw [if_neg hfirst] at hhandshake
    refine ⟨fun hrecovers ↦ ⟨hfirst, ?_⟩, fun ⟨_, hanswers⟩ ↦ ?_⟩
    · exact answersAlike_of_recovers hprocessed hread hstate hnew hhandshake hrecovers
    · obtain ⟨next, hreplay⟩ := replayBlock_of_processed hprocessed hread hinfo hsaved
        (realAnswers app (initChain crypto app node.state node.app)) hanswers
      rw [hreplay] at hhandshake
      refine recovers_of_handshake hafter rfl hstate hhandshake ?_ ?_
      · rw [hprocessed.committed]
        rfl
      · rw [hprocessed.committed]
        exact congrArg Prod.snd hanswers

/-- A node recovers from a crash at every point of every block, except between saving a block and
the commit of the application, if it is the first block of the chain or `InitChain`, which a restart
repeats with the validators of the state, makes the application answer it differently. -/
theorem crash_recovery_iff {genDoc : GenesisDoc PubKey} {now : ℤ} {content : Content}
    {inputs : List (Block PubKey Signature Address × Commit Signature Address)}
    (hinit : KeepsHash app) (hgenesis : makeGenesisState crypto now genDoc = .ok genesis)
    (hstart : 0 ≤ genDoc.blockStartNum) (happ : app.hash content = genDoc.appHash)
    (hrun : processBlocks crypto wire app (genesisNode genesis content) inputs = .ok node)
    (hprocess : processBlock crypto wire app node (block, seenCommit) = .ok after)
    (hread : wire.readBlock (wire.blockBytes block) = some block) (point : CrashPoint) :
    Recovers app (restart crypto wire app genesis (crashDisk app point node block after))
        (if point = .beforeSaveBlock then node else after) ↔
      (point = .afterSaveBlock ∨ point = .afterSaveABCIResponses →
        inputs ≠ [] ∧ AnswersAlike crypto app node.state node.app block) := by
  have hsettled := (settled_genesisNode hgenesis happ).run hrun
  obtain ⟨parts, hashed, hash, hprocessed⟩ := processed_of_processBlock hprocess
  have hafter := hsettled.step hprocessed
  have hfirst : node.state.lastBlockHeight ≠ genDoc.blockStartNum ↔ inputs ≠ [] := by
    have hgenesisHeight : (genesisNode genesis content : Node PubKey Signature Address
      Content).state.lastBlockHeight = genDoc.blockStartNum :=
        (isGenesis_of_makeGenesisState hgenesis).lastBlockHeight
    rw [(settled_genesisNode hgenesis happ).height_of_run hrun, hgenesisHeight, ne_eq, ne_eq,
      ← List.length_eq_zero_iff]
    omega
  cases point with
  | beforeSaveBlock =>
    simp only [if_true, reduceCtorEq, or_self, false_imp_iff, iff_true]
    exact recovers_of_handshake hsettled rfl hsettled.saved (handshake_of_settled hstart hsettled)
      rfl (hinit _ _)
  | afterSaveBlock =>
    simp only [reduceCtorEq, if_false, true_or, true_imp_iff]
    rw [← hfirst]
    exact recovers_before_commit_iff hstart hsettled hprocessed hread rfl rfl rfl
  | afterSaveABCIResponses =>
    simp only [reduceCtorEq, if_false, or_true, true_imp_iff]
    rw [← hfirst]
    exact recovers_before_commit_iff hstart hsettled hprocessed hread rfl saveABCIResponses_twice
      rfl
  | afterCommit =>
    simp only [reduceCtorEq, if_false, or_self, false_imp_iff, iff_true]
    exact recovers_of_handshake hafter rfl hsettled.saved
      (handshake_after_commit hstart hsettled hprocessed hread) rfl (hinit _ _)
  | afterSaveState =>
    simp only [reduceCtorEq, if_false, or_self, false_imp_iff, iff_true]
    exact recovers_of_handshake hafter rfl hafter.saved (handshake_of_settled hstart hafter) rfl
      (hinit _ _)

end Recovery

/-- A crash in the second block of a chain, after it has been saved. -/
theorem recovers_in_second_block : ∃ node after,
    processBlocks sampleCrypto twoBlockWire quietApp (genesisNode (sampleState 0) 0)
      [(firstBlock 0, sampleCommit 1)] = .ok node ∧
    processBlock sampleCrypto twoBlockWire quietApp node (secondBlock "second", sampleCommit 2) =
      .ok after ∧
    Recovers quietApp (restart sampleCrypto twoBlockWire quietApp (sampleState 0)
      (crashDisk quietApp .afterSaveBlock node (secondBlock "second") after)) after := by
  have hgenesis : makeGenesisState sampleCrypto 0 (sampleGenesis 0) = .ok (sampleState 0) := rfl
  obtain ⟨node, after, hrun, hprocess⟩ : ∃ node after,
      processBlocks sampleCrypto twoBlockWire quietApp (genesisNode (sampleState 0) 0)
        [(firstBlock 0, sampleCommit 1)] = .ok node ∧
      processBlock sampleCrypto twoBlockWire quietApp node
        (secondBlock "second", sampleCommit 2) = .ok after := ⟨_, _, rfl, rfl⟩
  exact ⟨node, after, hrun, hprocess, (crash_recovery_iff (fun _ _ ↦ rfl) hgenesis le_rfl rfl hrun
    hprocess rfl .afterSaveBlock).mpr fun _ ↦ ⟨List.cons_ne_nil _ _, rfl⟩⟩

/-- After a crash in the first block, before the application commits it, the block store stays one
block ahead and the node does not start. -/
theorem restart_fails_in_first_block : ∃ after,
    processBlock sampleCrypto twoBlockWire quietApp (genesisNode (sampleState 0) 0)
      (firstBlock 0, sampleCommit 1) = .ok after ∧
    restart sampleCrypto twoBlockWire quietApp (sampleState 0)
        (crashDisk quietApp .afterSaveBlock (genesisNode (sampleState 0) 0) (firstBlock 0) after) =
      .error (.panic (.sanity "state and store height mismatch")) :=
  ⟨_, rfl, rfl⟩

end LkChain.Tendermint.Handshake
