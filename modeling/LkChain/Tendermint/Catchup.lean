import LkChain.Tendermint.Handshake
import LkChain.Tendermint.SortedSets
import LkChain.Validators.Agreement

/-!
# An application that has fallen behind

The strategy of the application lives in memory. After a restart `Handshake` seeds it with the
validators of the newest state and then has the application execute the blocks that it has missed,
whose validator transactions are collected once more. They set powers, so most of them change
nothing; but the removal of a validator that is gone by now adds it again with power zero, and a
power that was replaced later comes back.
-/

namespace LkChain.Tendermint.Catchup

open Foundation Foundation.Stops Tendermint.Types ValSet ChainState StateStore History BlockStore
    Execution
open Handshake SortedSets
open Validators.ParseTx (Bytes Codec Crypto Item Sound ValidatorTx decodeTx goMap sampleCodec
  sampleCrypto)
open Validators.NodeSet (table represents_table)
open Validators.TxBased (Strategy newValidatorsStrategy)
open Validators.Agreement (collectAll OrderlyTx OrderlyBlock Delivered collectAll_delivered
  collectAll_of_rejected sound_sampleCrypto)
open Validators.VotingPower (checkValidatorTx_ok decodeTx_of_checkValidatorTx range_of_checkChange)
open Validators.Collect (collectTx_of_error collectTx_collected collectTx_wellFormed
  pairs_map_itemValidator)

variable {PubKey Signature Address Chain : Type}

/-- The application without its strategy: the Ethereum chain, and how transactions are read. -/
structure Backend (PubKey Signature Address Chain : Type) where
  codec : Codec
  /-- The text of a validator transaction, if there is one in the bytes. -/
  readValidatorTx : Bytes → Option String
  results : Chain → Block PubKey Signature Address → List ABCIResult
  next : Chain → Block PubKey Signature Address → Chain
  hash : Chain → Bytes

section Program

variable (backend : Backend PubKey Signature Address Chain)
  (crypto : Crypto PubKey Signature Address)

/-- The validator transactions of a block. -/
def validatorTxs (block : Block PubKey Signature Address) : List String :=
  (block.data.getD []).filterMap backend.readValidatorTx

/-- The strategy after the block and its `EndBlock`. -/
def deliver (strategy : Strategy) (block : Block PubKey Signature Address) : Strategy :=
  (collectAll backend.codec crypto strategy (validatorTxs backend block)).getUpdateValidators.2

/-- The application. -/
def ethermint : Application PubKey Signature Address (Strategy × Chain) where
  initChain content validators := (content.1.setValidators validators, content.2)
  exec content block :=
    { deliverTx := backend.results content.2 block
      validatorUpdates := (collectAll backend.codec crypto content.1
        (validatorTxs backend block)).getUpdateValidators.1
      consensusParamUpdates := none }
  next content block := (deliver backend crypto content.1 block, backend.next content.2 block)
  hash content := backend.hash content.2

end Program

/-! ## The effect of the transactions of blocks -/

section Effects

variable (codec : Codec) (crypto : Crypto PubKey Signature Address)

/-- The items of a transaction, if it takes effect. -/
def effect (strategy : Strategy) (tx : String) : List (Bytes × ℤ) :=
  match strategy.checkValidatorTx codec crypto tx, (strategy.collectTx codec crypto tx).2 with
  | .ok data, none => data.txs.map Item.pair
  | _, _ => []

/-- The items of the transactions that take effect, one after the other. -/
def effects : Strategy → List String → List (Bytes × ℤ)
  | _, [] => []
  | strategy, tx :: rest =>
    effect codec crypto strategy tx ++ effects (strategy.collectTx codec crypto tx).1 rest

variable {codec crypto} {strategy : Strategy} {table : Roster.Table Bytes}

/-- A transaction that takes effect revises the roster by its items. -/
theorem collectTx_represents {tx : String} (hwellFormed : strategy.WellFormed)
    (hpairs : Roster.Represents strategy.pairs table) :
    Roster.Represents (strategy.collectTx codec crypto tx).1.pairs
      (Roster.reviseAll table (effect codec crypto strategy tx)) := by
  unfold effect
  cases hcheck : strategy.checkValidatorTx codec crypto tx with
  | error error =>
    rw [collectTx_of_error hcheck]
    exact hpairs
  | ok data =>
    have hcollected := collectTx_collected hcheck
    generalize strategy.collectTx codec crypto tx = result at hcollected ⊢
    cases hcollected with
    | refused hfilled _ =>
      rw [hfilled.pairs_eq hwellFormed.cleared]
      exact hpairs
    | applied hfilled happly =>
      have happlies := Validators.Collect.applies_of_applyUpdates happly
      have hrevised := (hfilled.applies hwellFormed.cleared rfl hpairs happlies).2.1
      rwa [pairs_map_itemValidator] at hrevised

theorem collectAll_represents {txs : List String} (hwellFormed : strategy.WellFormed)
    (hpairs : Roster.Represents strategy.pairs table) :
    (collectAll codec crypto strategy txs).WellFormed ∧
      Roster.Represents (collectAll codec crypto strategy txs).pairs
        (Roster.reviseAll table (effects codec crypto strategy txs)) := by
  induction txs generalizing strategy table with
  | nil => exact ⟨hwellFormed, hpairs⟩
  | cons tx rest ih =>
    rw [effects, Roster.reviseAll_append]
    exact ih (collectTx_wellFormed hwellFormed) (collectTx_represents hwellFormed hpairs)

/-- An item that takes effect stands in a transaction that passes the check. -/
theorem mem_effects {txs : List String} {pair : Bytes × ℤ}
    (hpair : pair ∈ effects codec crypto strategy txs) : ∃ tx ∈ txs, ∃ meets : Strategy, ∃ data,
      meets.checkValidatorTx codec crypto tx = .ok data ∧ pair ∈ data.txs.map Item.pair := by
  induction txs generalizing strategy with
  | nil => cases hpair
  | cons tx rest ih =>
    rcases List.mem_append.mp hpair with hfirst | hlater
    · unfold effect at hfirst
      split at hfirst
      next data hcheck _ => exact ⟨tx, List.mem_cons_self, strategy, data, hcheck, hfirst⟩
      next => cases hfirst
    · obtain ⟨later, hmem, hrest⟩ := ih hlater
      exact ⟨later, List.mem_cons_of_mem tx hmem, hrest⟩

theorem effects_of_rejected {txs : List String}
    (hrejected : ∀ tx ∈ txs, ∃ error, strategy.checkValidatorTx codec crypto tx = .error error) :
    effects codec crypto strategy txs = [] := by
  induction txs with
  | nil => rfl
  | cons tx rest ih =>
    obtain ⟨⟨error, herror⟩, hrest⟩ := List.forall_mem_cons.mp hrejected
    rw [effects, effect, herror, collectTx_of_error herror]
    exact ih hrest

/-- In an orderly block the items that take effect are those that the engine is told. -/
theorem effects_of_orderly {txs : List String} (hwellFormed : strategy.WellFormed)
    (hidle : strategy.updateValidators = []) (hnonneg : ∀ pair ∈ strategy.pairs, 0 ≤ pair.2)
    (hpairs : Roster.Represents strategy.pairs strategy.table)
    (horderly : OrderlyBlock codec crypto strategy txs) :
    effects codec crypto strategy txs =
      (collectAll codec crypto strategy txs).updates.map Validators.TxBased.Validator.pair := by
  induction txs with
  | nil =>
    show [] = (strategy.updateValidators.map strategy.heap).map Validators.TxBased.Validator.pair
    rw [hidle]
    rfl
  | cons tx rest ih =>
    have hstep : collectAll codec crypto strategy (tx :: rest) =
        collectAll codec crypto (strategy.collectTx codec crypto tx).1 rest := rfl
    unfold OrderlyBlock at horderly
    rw [effects, hstep]
    cases hcheck : strategy.checkValidatorTx codec crypto tx with
    | error error =>
      rw [hcheck] at horderly
      rw [effect, hcheck, collectTx_of_error hcheck]
      exact ih horderly
    | ok data =>
      rw [hcheck] at horderly
      obtain ⟨htx, hlater⟩ := horderly
      rw [effects_of_rejected hlater, collectAll_of_rejected hlater, List.append_nil]
      obtain ⟨-, after, hcollect, -, -, hitems⟩ := Validators.Collect.collectTx_accepted hwellFormed
        hpairs ⟨hnonneg, htx.total_lt⟩ hcheck htx.drift_lt
      rw [Validators.Collect.settled_of_kept htx.kept] at hitems
      rw [effect, hcheck, hcollect, hitems]

end Effects

section Blocks

variable (backend : Backend PubKey Signature Address Chain)
  (crypto : Crypto PubKey Signature Address)

/-- The items of all transactions of blocks that take effect. -/
def blockEffects : Strategy → List (Block PubKey Signature Address) → List (Bytes × ℤ)
  | _, [] => []
  | strategy, block :: rest =>
    effects backend.codec crypto strategy (validatorTxs backend block) ++
      blockEffects (deliver backend crypto strategy block) rest

variable {backend crypto} {strategy : Strategy} {table : Roster.Table Bytes}
  {blocks : List (Block PubKey Signature Address)}

theorem deliver_represents (hwellFormed : strategy.WellFormed)
    (hpairs : Roster.Represents strategy.pairs table) :
    (blocks.foldl (deliver backend crypto) strategy).WellFormed ∧
      Roster.Represents (blocks.foldl (deliver backend crypto) strategy).pairs
        (Roster.reviseAll table (blockEffects backend crypto strategy blocks)) := by
  induction blocks generalizing strategy table with
  | nil => exact ⟨hwellFormed, hpairs⟩
  | cons block rest ih =>
    rw [blockEffects, Roster.reviseAll_append]
    exact ih (collectAll_represents hwellFormed hpairs).1.cleared
      (collectAll_represents hwellFormed hpairs).2

theorem deliver_idle (hidle : strategy.updateValidators = []) :
    (blocks.foldl (deliver backend crypto) strategy).updateValidators = [] := by
  induction blocks generalizing strategy with
  | nil => exact hidle
  | cons block rest ih => exact ih rfl

theorem foldl_commit {appState : AppState (Strategy × Chain)} :
    blocks.foldl (ethermint backend crypto).commit appState =
      ⟨appState.height + blocks.length, blocks.foldl (deliver backend crypto) appState.content.1,
        blocks.foldl backend.next appState.content.2⟩ := by
  induction blocks generalizing appState with
  | nil => simp
  | cons block rest ih =>
    rw [List.foldl_cons, ih, List.length_cons]
    simp only [Application.commit, ethermint, List.foldl_cons]
    congr 1
    omega

theorem mem_blockEffects {pair : Bytes × ℤ}
    (hpair : pair ∈ blockEffects backend crypto strategy blocks) :
    ∃ block ∈ blocks, ∃ tx ∈ validatorTxs backend block, ∃ meets : Strategy, ∃ data,
      meets.checkValidatorTx backend.codec crypto tx = .ok data ∧
        pair ∈ data.txs.map Item.pair := by
  induction blocks generalizing strategy with
  | nil => cases hpair
  | cons block rest ih =>
    rcases List.mem_append.mp hpair with hfirst | hlater
    · exact ⟨block, List.mem_cons_self, mem_effects hfirst⟩
    · obtain ⟨later, hmem, hrest⟩ := ih hlater
      exact ⟨later, List.mem_cons_of_mem block hmem, hrest⟩

theorem blockEffects_nonneg : ∀ item ∈ blockEffects backend crypto strategy blocks, 0 ≤ item.2 := by
  intro item hitem
  obtain ⟨_, _, tx, _, meets, data, hcheck, hmem⟩ := mem_blockEffects hitem
  exact (range_of_checkChange (checkValidatorTx_ok hcheck).2 item hmem).1

end Blocks

/-! ## The handshake -/

section Handshake

variable [LinearOrder Address] {Content : Type} {crypto : Crypto PubKey Signature Address}
  {wire : Wire PubKey Signature Address} {app : Application PubKey Signature Address Content}
  {store : Store Signature Address} {db after : StateDB PubKey Address}
  {s next : State PubKey Address} {appState : AppState Content}
  {blocks : List (Block PubKey Signature Address)} {block : Block PubKey Signature Address}

/-- Blocks that the store has from a height on. -/
def StoredFrom (wire : Wire PubKey Signature Address) (store : Store Signature Address) :
    ℤ → List (Block PubKey Signature Address) → Prop
  | _, [] => True
  | height, block :: rest =>
    (loadBlock wire store height : Fallible (NodeError Signature Address) _) = .ok (some block) ∧
      StoredFrom wire store (height + 1) rest

omit [LinearOrder Address] in
theorem execBlocks_of_stored {height : ℤ} (hstored : StoredFrom wire store height blocks) :
    execBlocks wire app store blocks.length height appState =
      .ok (blocks.foldl app.commit appState) := by
  induction blocks generalizing height appState with
  | nil => rfl
  | cons block rest ih =>
    obtain ⟨hload, hrest⟩ := hstored
    rw [List.length_cons, execBlocks, hload]
    exact ih hrest

omit [LinearOrder Address] in
theorem StoredFrom.withBlock {height : ℤ} {hashed : Header} {hash : Bytes} {parts : PartSet}
    {seenCommit : Commit Signature Address} (hstored : StoredFrom wire store height blocks)
    (habove : height + blocks.length ≤ block.header.height) :
    StoredFrom wire (BlockStore.withBlock store block hashed hash parts seenCommit) height
      blocks := by
  induction blocks generalizing height with
  | nil => trivial
  | cons first rest ih =>
    rw [List.length_cons, Nat.cast_succ] at habove
    obtain ⟨hload, hrest⟩ := hstored
    refine ⟨?_, ih hrest (by omega)⟩
    rw [loadBlock_withBlock_of_ne (by omega), hload]

/-- The handshake with an application behind a state that is at the height of the store. -/
theorem handshake_of_behind (hpos : 0 < appState.height) (hstate : s.lastBlockHeight = store.height)
    (hstored : StoredFrom wire store (appState.height + 1) blocks)
    (hlength : appState.height + blocks.length = store.height) (hne : blocks ≠ []) :
    handshake crypto wire app store db s appState = (do
      checkAppHash s (app.hash (blocks.foldl app.commit (initChain crypto app s appState)).content)
      return (db, blocks.foldl app.commit (initChain crypto app s appState))) := by
  have hcount : 0 < blocks.length := List.length_pos_of_ne_nil hne
  have hheight : handshakeHeight s appState.height = appState.height :=
    if_neg fun h ↦ by omega
  have hblocks : (store.height - appState.height).toNat = blocks.length := by omega
  rw [handshake_of_pos hpos hheight]
  unfold replayToStore replayBlocksFrom
  rw [if_neg (by omega), if_neg (by omega), if_neg (by omega), if_neg (by omega),
    if_pos (by omega), if_pos (by omega)]
  simp only [Bool.false_eq_true, if_false, hblocks, execBlocks_of_stored hstored]
  show (do
    checkAppHash s (if store.height ≤ appState.height then [] else _)
    return _) = _
  rw [if_neg (by omega)]

/-- The handshake with an application that is not ahead of a state one block behind the store. -/
theorem handshake_of_state_behind (hpos : 0 < appState.height)
    (hheight : handshakeHeight s appState.height = appState.height)
    (hstate : s.lastBlockHeight + 1 = store.height)
    (hstored : StoredFrom wire store (appState.height + 1) blocks)
    (hlength : appState.height + blocks.length = s.lastBlockHeight) :
    handshake crypto wire app store db s appState = (do
      let (db, _, block) ← replayBlock crypto wire store db s store.height
        (realAnswers app (blocks.foldl app.commit (initChain crypto app s appState)))
      return (db, app.commit (blocks.foldl app.commit (initChain crypto app s appState)) block))
        := by
  have hblocks : (store.height - 1 - appState.height).toNat = blocks.length := by omega
  rw [handshake_of_pos hpos hheight]
  unfold replayToStore replayBlocksFrom
  rw [if_neg (by omega), if_neg (by omega), if_neg (by omega), if_neg (by omega),
    if_neg (by omega)]
  by_cases hequal : blocks = []
  · subst hequal
    rw [List.length_nil, Nat.cast_zero, add_zero] at hlength
    rw [if_neg (by omega), if_pos hlength]
    rfl
  · have hcount : 0 < blocks.length := List.length_pos_of_ne_nil hequal
    rw [if_pos (by omega)]
    simp only [if_true, hblocks, execBlocks_of_stored hstored]
    rfl

end Handshake

/-! ## Catching up -/

/-- For every key, the powers that the items give to it lead back to the power that it has: the last
of them, or the removals after it. -/
def Reinstates (table : Roster.Table Bytes) (items : List (Bytes × ℤ)) : Prop :=
  ∀ key, Roster.EndsAt (table key) (Roster.weightsOf key items)

/-- The same for the keys that the items of one more block do not set. A key that they only remove
has to be in the table before and after. -/
def ReinstatesUpTo (table : Roster.Table Bytes) (items last : List (Bytes × ℤ)) : Prop :=
  ∀ key, (Roster.weightsOf key last = [] → Roster.EndsAt (table key) (Roster.weightsOf key items)) ∧
    (Roster.lastWeight (Roster.weightsOf key last) = none →
      Roster.Stays (table key) (Roster.weightsOf key items))

/-- Every item of the blocks, whether it takes effect or not, sets a power that its key has. -/
def Confirms (backend : Backend PubKey Signature Address Chain) (table : Roster.Table Bytes)
    (blocks : List (Block PubKey Signature Address)) : Prop :=
  ∀ block ∈ blocks, ∀ tx ∈ validatorTxs backend block, ∀ data,
    decodeTx backend.codec tx = .ok data →
      ∀ pair ∈ data.txs.map Item.pair, pair.2 ≠ 0 ∧ table pair.1 = some pair.2

theorem reinstates_iff {table : Roster.Table Bytes} {items : List (Bytes × ℤ)} :
    Reinstates table items ↔ Roster.reviseAll table items = table := by
  unfold Reinstates
  rw [funext_iff]
  simp only [Roster.reviseAll_apply, Roster.follow_eq_self_iff]

theorem reinstatesUpTo_iff {table : Roster.Table Bytes} {items last : List (Bytes × ℤ)} :
    ReinstatesUpTo table items last ↔
      Roster.reviseAll (Roster.reviseAll table items) last = Roster.reviseAll table last := by
  unfold ReinstatesUpTo
  rw [funext_iff]
  simp only [Roster.reviseAll_apply, Roster.follow_eq_follow_iff, Roster.follow_eq_self_iff,
    Roster.isSome_follow_iff]

theorem Confirms.reinstates {backend : Backend PubKey Signature Address Chain}
    {crypto : Crypto PubKey Signature Address} {table : Roster.Table Bytes} {strategy : Strategy}
    {blocks : List (Block PubKey Signature Address)} (hconfirms : Confirms backend table blocks) :
    Reinstates table (blockEffects backend crypto strategy blocks) := by
  apply reinstates_iff.mpr (Roster.reviseAll_eq_self _)
  intro item hitem
  obtain ⟨block, hblock, tx, htx, meets, data, hcheck, hmem⟩ := mem_blockEffects hitem
  exact hconfirms block hblock tx htx data (decodeTx_of_checkValidatorTx hcheck) item hmem

theorem Reinstates.upTo {table : Roster.Table Bytes} {items last : List (Bytes × ℤ)}
    (hreinstates : Reinstates table items) : ReinstatesUpTo table items last := by
  rw [reinstatesUpTo_iff, reinstates_iff.mp hreinstates]

/-- The application after a restart: its chain is on disk, its strategy is new. -/
def restarted (appState : AppState (Strategy × Chain)) : AppState (Strategy × Chain) :=
  ⟨appState.height, newValidatorsStrategy, appState.content.2⟩

/-- The strategy that `InitChain` seeds with the validators of a state. -/
def seeded (crypto : Crypto PubKey Signature Address) (s : State PubKey Address) : Strategy :=
  newValidatorsStrategy.setValidators (abciValidators crypto s.validators)

/-- The strategy after blocks have been replayed on it. -/
def replayed (backend : Backend PubKey Signature Address Chain)
    (crypto : Crypto PubKey Signature Address) (s : State PubKey Address)
    (blocks : List (Block PubKey Signature Address)) : Strategy :=
  blocks.foldl (deliver backend crypto) (seeded crypto s)

/-- The items that take effect in the course of it. -/
def replayedItems (backend : Backend PubKey Signature Address Chain)
    (crypto : Crypto PubKey Signature Address) (s : State PubKey Address)
    (blocks : List (Block PubKey Signature Address)) : List (Bytes × ℤ) :=
  blockEffects backend crypto (seeded crypto s) blocks

section Catchup

variable [LinearOrder Address] {backend : Backend PubKey Signature Address Chain}
  {crypto : Crypto PubKey Signature Address} {wire : Wire PubKey Signature Address}
  {s : State PubKey Address} {behind node : Node PubKey Signature Address (Strategy × Chain)}
  {rest : List (Block PubKey Signature Address × Commit Signature Address)}

omit [LinearOrder Address] in
theorem pairs_seeded : (seeded crypto s).pairs = s.validators.validators.map (keyPair crypto) := by
  rw [seeded, Validators.TxBased.pairs_eq_map_current, Validators.Agreement.current_setValidators,
    abciValidators, List.map_map]
  rfl

/-- The roster of the strategy after blocks have been replayed on it. -/
theorem represents_replayed {blocks : List (Block PubKey Signature Address)} (hsound : Sound crypto)
    (hproper : Proper crypto s.validators.validators) :
    (replayed backend crypto s blocks).WellFormed ∧
      Roster.Represents (replayed backend crypto s blocks).pairs
        (Roster.reviseAll (table crypto s.validators) (replayedItems backend crypto s blocks)) := by
  have hseeded : Roster.Represents (seeded crypto s).pairs (table crypto s.validators) := by
    rw [pairs_seeded]
    exact represents_table hsound hproper
  exact deliver_represents (Validators.Agreement.wellFormed_setValidators _ _) hseeded

theorem proper_of_run
    (hrun : processBlocks crypto wire (ethermint backend crypto) behind rest = .ok node)
    (hproper : Proper crypto behind.state.validators.validators) :
    Proper crypto node.state.validators.validators :=
  processBlocks_induct (motive := fun node ↦ Proper crypto node.state.validators.validators) hrun
    hproper fun hprocessed hbefore ↦
      proper_of_nextState (applyBlock_eq_ok_iff.mp hprocessed.applied).2.1 hbefore

theorem storedFrom_of_run {start : ℤ} (hrecorded : Recorded start behind)
    (hread : ∀ input ∈ rest, wire.readBlock (wire.blockBytes input.1) = some input.1)
    (hrun : processBlocks crypto wire (ethermint backend crypto) behind rest = .ok node) :
    StoredFrom wire node.store (behind.state.lastBlockHeight + 1) (rest.map Prod.fst) := by
  induction rest generalizing behind with
  | nil => trivial
  | cons input rest ih =>
    refine ⟨(stored_of_run hrecorded (hread input List.mem_cons_self) hrun).1, ?_⟩
    obtain ⟨next, parts, hashed, hash, hprocessed, hrest⟩ := exists_of_processBlocks_cons hrun
    rw [← hrecorded.height_of_processed hprocessed]
    exact ih (hrecorded.step hprocessed)
      (fun other hother ↦ hread other (List.mem_cons_of_mem input hother)) hrest

theorem app_of_run {Content : Type} {app : Application PubKey Signature Address Content}
    {first last : Node PubKey Signature Address Content}
    (hrun : processBlocks crypto wire app first rest = .ok last) :
    last.app = (rest.map Prod.fst).foldl app.commit first.app := by
  induction rest generalizing first with
  | nil =>
    cases hrun
    rfl
  | cons input rest ih =>
    obtain ⟨next, parts, hashed, hash, hprocessed, hrest⟩ := exists_of_processBlocks_cons hrun
    rw [ih hrest, hprocessed.committed]
    rfl

theorem appHash_of_run {Content : Type} {app : Application PubKey Signature Address Content}
    {first last : Node PubKey Signature Address Content}
    (hrun : processBlocks crypto wire app first rest = .ok last) (hne : rest ≠ []) :
    last.state.appHash = app.hash last.app.content := by
  obtain ⟨done, input, rfl⟩ := (List.eq_nil_or_concat' rest).resolve_left hne
  obtain ⟨middle, -, hlast⟩ := processBlocks_concat hrun
  obtain ⟨parts, hashed, hash, hprocessed⟩ := processed_of_processBlock hlast
  rw [hprocessed.follows.appHash, hprocessed.committed]
  rfl

/-- The last block, on an application on which the blocks before it have been replayed. -/
theorem table_of_last_block {strategy : Strategy} {next : State PubKey Address} {applied : Applied}
    {txs : List String} {items : List (Bytes × ℤ)} (hsound : Sound crypto)
    (hproper : Proper crypto s.validators.validators)
    (hwellFormed : strategy.WellFormed) (hidle : strategy.updateValidators = [])
    (hitems : ∀ item ∈ items, 0 ≤ item.2)
    (hpairs : Roster.Represents strategy.pairs
      (Roster.reviseAll (table crypto s.validators) items))
    (horderly : OrderlyBlock backend.codec crypto strategy txs)
    (hupdates : applied.responses.validatorUpdates =
      (collectAll backend.codec crypto strategy txs).updates)
    (hnext : nextState crypto wire s applied = .ok next) :
    (collectAll backend.codec crypto strategy txs).table = table crypto next.validators ↔
      ReinstatesUpTo (table crypto s.validators) items
        (effects backend.codec crypto strategy txs) := by
  have hset := represents_table hsound hproper
  have hpowers : ∀ key, ∀ power ∈ table crypto s.validators key, 0 ≤ power := by
    intro key power hpower
    obtain ⟨v, hv, hpair⟩ := List.mem_map.mp ((hset.mem_iff key power).mpr hpower)
    cases hpair
    exact (hproper.each v hv).2
  have hnonneg : ∀ pair ∈ strategy.pairs, 0 ≤ pair.2 := by
    intro pair hpair
    have hpower := (hpairs.mem_iff pair.1 pair.2).mp hpair
    rw [Roster.reviseAll_apply] at hpower
    refine Roster.follow_nonneg (hpowers pair.1) ?_ pair.2 hpower
    intro weight hweight
    obtain ⟨item, hitem, rfl⟩ := List.mem_map.mp hweight
    exact hitems item (List.mem_of_mem_filter hitem)
  have htable : strategy.table = Roster.reviseAll (table crypto s.validators) items :=
    hpairs.lookup_eq
  have hdelivered : Delivered crypto strategy (collectAll backend.codec crypto strategy txs) :=
    collectAll_delivered hwellFormed hidle hnonneg (htable ▸ hpairs) horderly
  have hfollowed := represents_of_nextState hsound hnext hproper
    (by rw [hupdates]; exact hdelivered.canonical) hset
  have hbefore := hdelivered.represents
  rw [← effects_of_orderly hwellFormed hidle hnonneg (htable ▸ hpairs) horderly, htable] at hbefore
  rw [hupdates, ← effects_of_orderly hwellFormed hidle hnonneg (htable ▸ hpairs) horderly]
    at hfollowed
  rw [reinstatesUpTo_iff, ← hbefore.lookup_eq, ← hfollowed.lookup_eq]
  rfl

/-- The application after the blocks of a run have been replayed on it. -/
def caughtUp (backend : Backend PubKey Signature Address Chain)
    (crypto : Crypto PubKey Signature Address) (s : State PubKey Address)
    (appState : AppState (Strategy × Chain)) (blocks : List (Block PubKey Signature Address)) :
    AppState (Strategy × Chain) :=
  ⟨appState.height + blocks.length, replayed backend crypto s blocks,
    blocks.foldl backend.next appState.content.2⟩

omit [LinearOrder Address] in
theorem foldl_commit_initChain {appState : AppState (Strategy × Chain)}
    {blocks : List (Block PubKey Signature Address)} :
    blocks.foldl (ethermint backend crypto).commit
        (initChain crypto (ethermint backend crypto) (writtenState s) (restarted appState)) =
      caughtUp backend crypto s appState blocks :=
  foldl_commit

/-- The handshake with a state at the height of the store replays the blocks of the run, and finds
the hash of the state. -/
theorem handshake_at_store {start : ℤ} (hrecorded : Recorded start behind)
    (hread : ∀ input ∈ rest, wire.readBlock (wire.blockBytes input.1) = some input.1)
    (hrest : processBlocks crypto wire (ethermint backend crypto) behind rest = .ok node)
    (hpos : 0 < behind.state.lastBlockHeight) (hne : rest ≠ []) :
    handshake crypto wire (ethermint backend crypto) node.store node.db (writtenState node.state)
        (restarted behind.app) =
      .ok (node.db, caughtUp backend crypto node.state behind.app (rest.map Prod.fst)) := by
  have hstored := storedFrom_of_run hrecorded hread hrest
  have hlength := hrecorded.height_of_run hrest
  have happ : (restarted behind.app).height = behind.state.lastBlockHeight := hrecorded.appHeight
  have hheight : (writtenState node.state).lastBlockHeight = node.store.height :=
    (hrecorded.run hrest).storeHeight.symm
  have hstate : (writtenState node.state).lastBlockHeight = node.state.lastBlockHeight := rfl
  have hhash : (writtenState node.state).appHash = (ethermint backend crypto).hash
      (caughtUp backend crypto node.state behind.app (rest.map Prod.fst)).content := by
    rw [show (writtenState node.state).appHash = node.state.appHash from rfl,
      appHash_of_run hrest hne, app_of_run hrest, foldl_commit]
    rfl
  rw [← happ] at hstored hpos hlength
  rw [handshake_of_behind hpos hheight hstored (by rw [List.length_map]; omega) (by simpa),
    foldl_commit_initChain]
  unfold checkAppHash
  rw [if_neg (not_not.mpr hhash)]
  rfl

/-- The handshake with a state one block behind the store seeds the application and leaves, or
replays the blocks of the run and applies the last one. -/
theorem handshake_one_behind {start : ℤ} {block : Block PubKey Signature Address} {parts : PartSet}
    {seenCommit : Commit Signature Address} {partSize : ℤ} {store : Store Signature Address}
    {db : StateDB PubKey Address} {caught : AppState (Strategy × Chain)}
    (hrecorded : Recorded start behind)
    (hread : ∀ input ∈ rest, wire.readBlock (wire.blockBytes input.1) = some input.1)
    (hrest : processBlocks crypto wire (ethermint backend crypto) behind rest = .ok node)
    (hpos : 0 < behind.state.lastBlockHeight)
    (hparts : (block.makePartSet wire partSize : Fallible (NodeError Signature Address) _) =
      .ok parts)
    (hreadBlock : wire.readBlock (wire.blockBytes block) = some block)
    (hsave : (saveBlock wire node.store block parts seenCommit :
      Fallible (NodeError Signature Address) _) = .ok store)
    (hhandshake : handshake crypto wire (ethermint backend crypto) store node.db
      (writtenState node.state) (restarted behind.app) = .ok (db, caught)) :
    rest = [] ∧ db = node.db ∧ caught.content.1 = seeded crypto node.state ∨
      ∃ blockID appHash next,
        nextState crypto wire (writtenState node.state) ⟨blockID, block.header,
          (ethermint backend crypto).exec
            (caughtUp backend crypto node.state behind.app (rest.map Prod.fst)).content block,
          appHash⟩ = .ok next ∧
        db.state = some (writtenState next) ∧
        caught.content.1 = deliver backend crypto
          (replayed backend crypto node.state (rest.map Prod.fst)) block := by
  obtain ⟨hcontiguous, hashed, hash, -, rfl⟩ := withBlock_of_saveBlock hsave
  have hstored := storedFrom_of_run hrecorded hread hrest
  have hlength := hrecorded.height_of_run hrest
  have hheight := (hrecorded.run hrest).storeHeight
  have happ : (restarted behind.app).height = behind.state.lastBlockHeight := hrecorded.appHeight
  have hstate : (writtenState node.state).lastBlockHeight = node.state.lastBlockHeight := rfl
  have htop : (withBlock node.store block hashed.header hash parts seenCommit).height =
      block.header.height := rfl
  rw [← happ] at hpos hlength
  by_cases hzero : handshakeHeight (writtenState node.state) (restarted behind.app).height = 0
  · rw [handshake_of_zero hpos.le hzero (by omega)] at hhandshake
    cases hhandshake
    have hlevel : (writtenState node.state).lastBlockHeight = (restarted behind.app).height := by
      unfold handshakeHeight at hzero
      split at hzero
      next h => exact h.2.2
      next => omega
    exact .inl ⟨List.eq_nil_of_length_eq_zero (by omega), rfl, rfl⟩
  · have hsame : handshakeHeight (writtenState node.state) (restarted behind.app).height =
        (restarted behind.app).height := by
      unfold handshakeHeight at hzero ⊢
      split at hzero
      next => exact absurd rfl hzero
      next h => exact if_neg h
    rw [← happ] at hstored
    rw [handshake_of_state_behind hpos hsame (by omega)
      (hstored.withBlock (by rw [List.length_map]; omega)) (by rw [List.length_map]; omega),
      foldl_commit_initChain, Results.bind_eq_ok_iff] at hhandshake
    obtain ⟨⟨saved, next, loaded⟩, hreplay, hreturn⟩ := hhandshake
    cases hreturn
    obtain ⟨hload, blockID, hnext, rfl⟩ := applied_of_replayBlock hreplay
    rw [htop, loadBlock_withBlock hparts hreadBlock, Except.ok.injEq, Option.some.injEq] at hload
    subst hload
    exact .inr ⟨blockID, _, next, hnext, rfl, rfl⟩

end Catchup

/-! ## A validator that is gone -/

/-- Two validators, one of them with little power. -/
def twoGenesis : GenesisDoc UInt8 :=
  { sampleGenesis 0 with validators := [⟨1, 10⟩, ⟨2, 2⟩] }

/-- The state of `twoGenesis`. -/
def twoState : State UInt8 ℕ :=
  { sampleState 0 with
    validators := ⟨[⟨1, 1, 10, -2⟩, ⟨2, 2, 2, 2⟩], some ⟨1, 1, 10, -2⟩, 12, .inr rfl⟩ }

/-- A new power for the second validator, signed by the first one. -/
def powerOfSecond (power : ℤ) (hrange : -2 ^ 63 ≤ power ∧ power < 2 ^ 63) : ValidatorTx where
  txs := [⟨"", "02", power, "", hrange⟩]
  sign := goMap [("01", "0x01")]

/-- A chain that counts its blocks; the byte 42 stands for the transaction. -/
def countingBackend (tx : ValidatorTx) : Backend UInt8 UInt8 ℕ ℕ where
  codec := sampleCodec [tx]
  readValidatorTx bytes := if bytes = [42] then some "0x00" else none
  results _ _ := []
  next chain _ := chain + 1
  hash chain := [UInt8.ofNat chain]

/-- The first block of `twoGenesis`. -/
def quietBlock : Block UInt8 UInt8 ℕ :=
  { firstBlock 0 with
    header := { (firstBlock 0).header with validatorsHash := [5, 1, 10, 2, 2] } }

/-- A commit by the first of two validators. -/
def firstCommit (height : ℤ) : Commit UInt8 ℕ :=
  { sampleCommit height with precommits := (sampleCommit height).precommits ++ [none] }

/-- The second block, with the transaction. -/
def votingBlock : Block UInt8 UInt8 ℕ where
  header := { sampleHeader 2 [1] [7] (sampleBlockID 1) [1, 1] "second" with
    numTxs := 1, totalTxs := 1, dataHash := some [2, 42], validatorsHash := [5, 1, 10, 2, 2] }
  data := some [[42]]
  evidence := []
  lastCommit := some (firstCommit 1)

/-- Encodings that read the two blocks back. -/
def votingWire : Wire UInt8 UInt8 ℕ := chainWire [quietBlock, votingBlock]

/-- The node of `twoGenesis` before its first block. -/
def twoNode : Node UInt8 UInt8 ℕ (Strategy × ℕ) :=
  genesisNode twoState (seeded sampleCrypto twoState, 0)

/-- The application of a chain on which the second validator gets this power. -/
def votingApp (tx : ValidatorTx) : Application UInt8 UInt8 ℕ (Strategy × ℕ) :=
  ethermint (countingBackend tx) sampleCrypto

/-- The second validator is given one vote more. -/
def raiseSecond : ValidatorTx := powerOfSecond 3 (by decide)

theorem orderlyTx_raiseSecond : OrderlyTx sampleCrypto
    (seeded sampleCrypto twoState) (seeded sampleCrypto twoState) raiseSecond := by
  refine ⟨?_, by decide, by decide, rfl⟩
  intro item hitem
  cases List.mem_singleton.mp hitem
  exact ⟨2, rfl, rfl, rfl⟩

theorem confirms_raiseSecond {table : Roster.Table Bytes} (htable : table [2] = some 3) :
    Confirms (countingBackend raiseSecond) table [votingBlock] := by
  intro block hblock tx htx data hdata pair hpair
  cases List.mem_singleton.mp hblock
  have htxs : validatorTxs (countingBackend raiseSecond) votingBlock = ["0x00"] := rfl
  rw [htxs] at htx
  cases List.mem_singleton.mp htx
  have hdecode : decodeTx (countingBackend raiseSecond).codec "0x00" = .ok raiseSecond := rfl
  cases hdecode.symm.trans hdata
  cases List.mem_singleton.mp hpair
  exact ⟨by decide, htable⟩

end LkChain.Tendermint.Catchup
