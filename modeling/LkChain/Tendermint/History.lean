import LkChain.Tendermint.StateStore

/-!
# Historical lookup

A run of `updateState` and `SaveState` from a genesis document writes one record of the validators
and one of the parameters for every height. The validators can be read back at every height. The
genesis state files the first parameters as changed at height 1 even if the chain starts later, and
then a reader looks for them at a height that was never written.
-/

namespace LkChain.Tendermint.History

open Foundation Tendermint.Types ValSet ChainState StateStore
open Validators.ParseTx (Bytes Crypto sampleCrypto)

variable {PubKey Signature Address : Type}

/-- What `ApplyBlock` puts into the next state: a block and the answers of the application. -/
structure Applied where
  blockID : BlockID
  header : Header
  responses : ABCIResponses
  appHash : Bytes

/-- The blocks of successive heights, the first one after the given height. -/
def Successive : ℤ → List Applied → Prop
  | _, [] => True
  | height, block :: rest => block.header.height = height + 1 ∧ Successive (height + 1) rest

section Program

variable [LinearOrder Address] (crypto : Crypto PubKey Signature Address)
  (wire : Wire PubKey Signature Address)

/-- The state that `ApplyBlock` saves. -/
def nextState (s : State PubKey Address) (block : Applied) :
    Fallible (StateError Address) (State PubKey Address) := do
  let s ← updateState crypto wire s block.blockID block.header block.responses
  return { s with appHash := block.appHash, coinbase := block.header.coinbase }

/-- The states of a run, the first one included. -/
def statesFrom (s : State PubKey Address) :
    List Applied → Fallible (StateError Address) (List (State PubKey Address))
  | [] => .ok [s]
  | block :: rest => do
    let next ← nextState crypto wire s block
    let states ← statesFrom next rest
    return s :: states

/-- The database after the states of a run have been saved. -/
def saveStates (states : List (State PubKey Address)) : StateDB PubKey Address :=
  states.foldl saveState .empty

end Program

/-! ## One block -/

/-- What a state has to do with the one before. -/
structure Follows (wire : Wire PubKey Signature Address) (s : State PubKey Address)
    (block : Applied) (next : State PubKey Address) : Prop where
  chainID : next.chainID = s.chainID
  lastBlockHeight : next.lastBlockHeight = block.header.height
  lastBlockTotalTx : next.lastBlockTotalTx = s.lastBlockTotalTx + block.header.numTxs
  lastBlockID : next.lastBlockID = block.blockID
  lastBlockTime : next.lastBlockTime = block.header.time
  lastValidators : next.lastValidators = s.validators
  lastResultsHash : next.lastResultsHash = wire.resultsHash block.responses.deliverTx
  appHash : next.appHash = block.appHash
  coinbase : next.coinbase = block.header.coinbase
  validators : block.responses.validatorUpdates = [] ∧ validatorEntry next = validatorEntry s ∨
    block.responses.validatorUpdates ≠ [] ∧
      next.lastHeightValidatorsChanged = block.header.height + 1
  params : block.responses.consensusParamUpdates = none ∧ paramEntry next = paramEntry s ∨
    block.responses.consensusParamUpdates ≠ none ∧ ValidParams next.consensusParams ∧
      next.lastHeightConsensusParamsChanged = block.header.height + 1

section Step

variable {crypto : Crypto PubKey Signature Address} {wire : Wire PubKey Signature Address}
  {s next : State PubKey Address} {block : Applied}

theorem nextParams_ends {header : Header} {responses : ABCIResponses} {params : ConsensusParams}
    {changed : ℤ} (hnext : nextParams s header responses = .ok (params, changed)) :
    responses.consensusParamUpdates = none ∧ params = s.consensusParams ∧
        changed = s.lastHeightConsensusParamsChanged ∨
      responses.consensusParamUpdates ≠ none ∧ ValidParams params ∧
        changed = header.height + 1 := by
  unfold nextParams at hnext
  split at hnext
  next hnone =>
    cases hnext
    exact .inl ⟨hnone, rfl, rfl⟩
  next updates hsome =>
    dsimp only at hnext
    split at hnext
    next => cases hnext
    next hvalid =>
      cases hnext
      exact .inr ⟨by rw [hsome]; exact Option.some_ne_none _, hvalid, rfl⟩

theorem Follows.validParams (hfollows : Follows wire s block next)
    (hvalid : ValidParams s.consensusParams) : ValidParams next.consensusParams := by
  rcases hfollows.params with ⟨_, hsame⟩ | ⟨_, hnew, _⟩
  · have hparams : next.consensusParams = s.consensusParams :=
      congrArg Versions.Entry.version hsame
    rwa [hparams]
  · exact hnew

variable [LinearOrder Address]

theorem nextValidators_ends {header : Header} {responses : ABCIResponses}
    {valSet : ValidatorSet PubKey Address} {changed : ℤ}
    (hnext : nextValidators crypto s header responses = .ok (valSet, changed)) :
    responses.validatorUpdates = [] ∧ valSet.members = s.validators.members ∧
        changed = s.lastHeightValidatorsChanged ∨
      responses.validatorUpdates ≠ [] ∧ changed = header.height + 1 := by
  unfold nextValidators ValidatorSet.updateState at hnext
  simp only [Results.bind_eq_ok_iff, Results.mapError_eq_ok_iff] at hnext
  obtain ⟨incremented, ⟨updated, hupdated, hincremented⟩, hreturn⟩ := hnext
  cases hreturn
  by_cases hempty : responses.validatorUpdates = []
  · rw [hempty] at hupdated ⊢
    cases hupdated
    exact .inl ⟨rfl, ValidatorSet.members_of_incrementAccum hincremented, rfl⟩
  · exact .inr ⟨hempty, if_neg (mt List.isEmpty_iff.mp hempty)⟩

theorem follows_of_nextState (hnext : nextState crypto wire s block = .ok next) :
    Follows wire s block next := by
  unfold nextState updateState at hnext
  simp only [Results.bind_eq_ok_iff] at hnext
  obtain ⟨updated, ⟨⟨valSet, valsChanged⟩, hvals, ⟨params, paramsChanged⟩, hparams, hreturn⟩,
    hsaved⟩ := hnext
  cases hreturn
  cases hsaved
  exact {
    chainID := rfl
    lastBlockHeight := rfl
    lastBlockTotalTx := rfl
    lastBlockID := rfl
    lastBlockTime := rfl
    lastValidators := rfl
    lastResultsHash := rfl
    appHash := rfl
    coinbase := rfl
    validators := (nextValidators_ends hvals).imp
      (fun ⟨hempty, hmembers, hchanged⟩ ↦ ⟨hempty, by
        unfold validatorEntry
        rw [hmembers, hchanged]⟩) id
    params := (nextParams_ends hparams).imp
      (fun ⟨hnone, hsame, hchanged⟩ ↦ ⟨hnone, by
        unfold paramEntry
        rw [hsame, hchanged]⟩) id }

end Step

/-! ## A run -/

/-- States of successive heights, the first one at the given height. -/
def Consecutive (height : ℤ) (states : List (State PubKey Address)) : Prop :=
  ∀ (index : ℕ) s, states[index]? = some s → s.lastBlockHeight = height + index

theorem Consecutive.tail {height : ℤ} {s : State PubKey Address}
    {states : List (State PubKey Address)} (hstates : Consecutive height (s :: states)) :
    Consecutive (height + 1) states := by
  intro index t ht
  have hheight := hstates (index + 1) t ht
  rw [hheight]
  omega

/-- The records that a run writes, where every state writes its entry under the next height. -/
theorem versions_foldl {Version : Type} {height : ℤ} {states : List (State PubKey Address)}
    {db : StateDB PubKey Address} (versions : StateDB PubKey Address → Versions.Store Version)
    (entry : State PubKey Address → Versions.Entry Version) (hstates : Consecutive height states)
    (hsave : ∀ s ∈ states, ∀ db, versions (saveState db s) =
      Versions.save (versions db) (s.lastBlockHeight + 1) (entry s)) :
    versions (states.foldl saveState db) =
      Versions.saveAll (versions db) (height + 1) (states.map entry) := by
  induction states generalizing height db with
  | nil => rfl
  | cons s states ih =>
    have hheight : s.lastBlockHeight = height := by simpa using hstates 0 s rfl
    rw [List.foldl_cons, ih hstates.tail fun t ht ↦ hsave t (List.mem_cons_of_mem s ht),
      hsave s List.mem_cons_self, hheight, List.map_cons, Versions.saveAll]

theorem validatorVersions_foldl {height : ℤ} {states : List (State PubKey Address)}
    {db : StateDB PubKey Address} (hstates : Consecutive height states) :
    validatorVersions (states.foldl saveState db) =
      Versions.saveAll (validatorVersions db) (height + 1) (states.map validatorEntry) :=
  versions_foldl validatorVersions validatorEntry hstates fun s _ _ ↦ validatorVersions_saveState s

theorem paramVersions_foldl {height : ℤ} {states : List (State PubKey Address)}
    {db : StateDB PubKey Address} (hstates : Consecutive height states)
    (hvalid : ∀ s ∈ states, ValidParams s.consensusParams) :
    paramVersions (states.foldl saveState db) =
      Versions.saveAll (paramVersions db) (height + 1) (states.map paramEntry) :=
  versions_foldl paramVersions paramEntry hstates fun s hs _ ↦
    paramVersions_saveState (hvalid s hs).ne_empty

section Run

variable {crypto : Crypto PubKey Signature Address} {wire : Wire PubKey Signature Address}
  {s : State PubKey Address} {blocks : List Applied} {states : List (State PubKey Address)}
  [LinearOrder Address]

theorem statesFrom_cons {block : Applied}
    (hrun : statesFrom crypto wire s (block :: blocks) = .ok states) :
    ∃ next rest, nextState crypto wire s block = .ok next ∧
      statesFrom crypto wire next blocks = .ok rest ∧ states = s :: rest := by
  unfold statesFrom at hrun
  simp only [Results.bind_eq_ok_iff] at hrun
  obtain ⟨next, hnext, rest, hrest, hreturn⟩ := hrun
  cases hreturn
  exact ⟨next, rest, hnext, hrest, rfl⟩

theorem statesFrom_head (hrun : statesFrom crypto wire s blocks = .ok states) :
    states[0]? = some s := by
  cases blocks with
  | nil =>
    cases hrun
    rfl
  | cons block blocks =>
    obtain ⟨next, rest, -, -, rfl⟩ := statesFrom_cons hrun
    rfl

theorem statesFrom_length (hrun : statesFrom crypto wire s blocks = .ok states) :
    states.length = blocks.length + 1 := by
  induction blocks generalizing s states with
  | nil =>
    cases hrun
    rfl
  | cons block blocks ih =>
    obtain ⟨next, rest, -, hrest, rfl⟩ := statesFrom_cons hrun
    rw [List.length_cons, List.length_cons, ih hrest]

theorem statesFrom_concat {last next : State PubKey Address} {block : Applied}
    (hrun : statesFrom crypto wire s blocks = .ok states) (hlast : states.getLast? = some last)
    (hnext : nextState crypto wire last block = .ok next) :
    statesFrom crypto wire s (blocks ++ [block]) = .ok (states ++ [next]) := by
  induction blocks generalizing s states with
  | nil =>
    cases hrun
    rw [List.getLast?_singleton, Option.some.injEq] at hlast
    subst hlast
    rw [List.nil_append, statesFrom, hnext]
    rfl
  | cons head blocks ih =>
    obtain ⟨second, others, hsecond, hothers, rfl⟩ := statesFrom_cons hrun
    have hne : others ≠ [] := fun hnil ↦ by
      have hlength := statesFrom_length hothers
      rw [hnil] at hlength
      cases hlength
    rw [List.getLast?_cons_of_ne_nil hne] at hlast
    rw [List.cons_append, statesFrom, hsecond]
    show (do
      let states ← statesFrom crypto wire second (blocks ++ [block])
      return s :: states) = _
    rw [ih hothers hlast]
    rfl

/-- Two neighbours in a run are a state and the one after a block. -/
theorem statesFrom_next (hrun : statesFrom crypto wire s blocks = .ok states) {index : ℕ}
    {before after : State PubKey Address} (hbefore : states[index]? = some before)
    (hafter : states[index + 1]? = some after) :
    ∃ block, blocks[index]? = some block ∧ nextState crypto wire before block = .ok after := by
  induction blocks generalizing s states index with
  | nil =>
    cases hrun
    cases hafter
  | cons block blocks ih =>
    obtain ⟨next, rest, hnext, hrest, rfl⟩ := statesFrom_cons hrun
    rw [List.getElem?_cons_succ] at hafter
    cases index with
    | zero =>
      cases hbefore
      rw [statesFrom_head hrest] at hafter
      cases hafter
      exact ⟨block, rfl, hnext⟩
    | succ index => exact ih hrest hbefore hafter

/-- A property of states that a block keeps holds in the whole run. -/
theorem statesFrom_induct {motive : ℕ → State PubKey Address → Prop}
    (hrun : statesFrom crypto wire s blocks = .ok states) (hfirst : motive 0 s)
    (hnext : ∀ index before block after, blocks[index]? = some block →
      Follows wire before block after → motive index before → motive (index + 1) after)
    {index : ℕ} {t : State PubKey Address} (ht : states[index]? = some t) : motive index t := by
  induction index generalizing t with
  | zero =>
    rw [statesFrom_head hrun] at ht
    cases ht
    exact hfirst
  | succ index ih =>
    have hlt : index < states.length := by
      have hlast := (List.getElem?_eq_some_iff.mp ht).1
      omega
    have hbefore : states[index]? = some states[index] := List.getElem?_eq_getElem hlt
    obtain ⟨block, hblock, hstep⟩ := statesFrom_next hrun hbefore ht
    exact hnext index _ block t hblock (follows_of_nextState hstep) (ih hbefore)

theorem Successive.height {height : ℤ} (hblocks : Successive height blocks) {index : ℕ}
    {block : Applied} (hblock : blocks[index]? = some block) :
    block.header.height = height + index + 1 := by
  induction blocks generalizing height index with
  | nil => cases hblock
  | cons head blocks ih =>
    cases index with
    | zero =>
      cases hblock
      simpa using hblocks.1
    | succ index =>
      rw [ih hblocks.2 hblock]
      omega

theorem Successive.concat {height : ℤ} {block : Applied}
    (hblocks : Successive height blocks)
    (hblock : block.header.height = height + blocks.length + 1) :
    Successive height (blocks ++ [block]) := by
  induction blocks generalizing height with
  | nil => exact ⟨by simpa using hblock, trivial⟩
  | cons head blocks ih =>
    refine ⟨hblocks.1, ih hblocks.2 ?_⟩
    rw [hblock, List.length_cons]
    omega

theorem consecutive_of_run (hrun : statesFrom crypto wire s blocks = .ok states)
    (hblocks : Successive s.lastBlockHeight blocks) : Consecutive s.lastBlockHeight states := by
  intro index t ht
  refine statesFrom_induct (motive := fun index t ↦ t.lastBlockHeight = s.lastBlockHeight + index)
    hrun (by simp) ?_ ht
  intro index before block after hblock hfollows _
  rw [hfollows.lastBlockHeight, hblocks.height hblock]
  omega

theorem validParams_of_run (hrun : statesFrom crypto wire s blocks = .ok states)
    (hvalid : ValidParams s.consensusParams) : ∀ t ∈ states, ValidParams t.consensusParams := by
  intro t ht
  obtain ⟨index, hindex, hget⟩ := List.getElem_of_mem ht
  refine statesFrom_induct (motive := fun _ t ↦ ValidParams t.consensusParams) hrun hvalid ?_
    (List.getElem?_eq_some_iff.mpr ⟨hindex, hget⟩)
  intro index before block after _ hfollows hbefore
  exact hfollows.validParams hbefore

theorem history_of_run {Version : Type} {entry : State PubKey Address → Versions.Entry Version}
    (hrun : statesFrom crypto wire s blocks = .ok states)
    (hfirst : (entry s).changed ≤ s.lastBlockHeight + 1)
    (hblocks : Successive s.lastBlockHeight blocks)
    (hnext : ∀ before block after, Follows wire before block after →
      (entry after).changed = block.header.height + 1 ∨ entry after = entry before) :
    Versions.History (s.lastBlockHeight + 1) (states.map entry) where
  head found hfound := by
    rw [List.getElem?_map, statesFrom_head hrun] at hfound
    cases hfound
    exact hfirst
  next index found after hfound hafter := by
    rw [List.getElem?_map, Option.map_eq_some_iff] at hfound hafter
    obtain ⟨t, ht, rfl⟩ := hfound
    obtain ⟨u, hu, rfl⟩ := hafter
    obtain ⟨block, hblock, hstep⟩ := statesFrom_next hrun ht hu
    refine (hnext t block u (follows_of_nextState hstep)).imp_left fun hchanged ↦ ?_
    rw [hchanged, hblocks.height hblock]
    omega

end Run

/-! ## From genesis -/

/-- What a genesis state has to do with its document. -/
structure IsGenesis (genDoc : GenesisDoc PubKey) (s : State PubKey Address) : Prop where
  lastBlockHeight : s.lastBlockHeight = genDoc.blockStartNum
  lastHeightValidatorsChanged : s.lastHeightValidatorsChanged = genDoc.blockStartNum + 1
  lastHeightConsensusParamsChanged : s.lastHeightConsensusParamsChanged = 1
  validParams : ValidParams s.consensusParams
  lastValidators : s.lastValidators = .of []
  appHash : s.appHash = genDoc.appHash

theorem validParams_of_completeParams {genDoc : GenesisDoc PubKey} {params : ConsensusParams}
    (hparams : genDoc.completeParams = .ok params) : ValidParams params := by
  unfold GenesisDoc.completeParams at hparams
  split at hparams
  next =>
    cases hparams
    exact validParams_default
  next given _ =>
    split at hparams
    next => cases hparams
    next hok =>
      cases hparams
      exact hok

theorem validParams_of_validateAndComplete {genDoc : GenesisDoc PubKey} {now time : ℤ}
    {params : ConsensusParams} (hvalid : genDoc.validateAndComplete now = .ok (time, params)) :
    ValidParams params := by
  unfold GenesisDoc.validateAndComplete at hvalid
  split at hvalid
  next => cases hvalid
  next =>
    rw [Results.bind_eq_ok_iff] at hvalid
    obtain ⟨found, hfound, hrest⟩ := hvalid
    split at hrest
    next => cases hrest
    next =>
      split at hrest
      next => cases hrest
      next =>
        cases hrest
        exact validParams_of_completeParams hfound

section Genesis

variable [LinearOrder Address] {crypto : Crypto PubKey Signature Address}
  {wire : Wire PubKey Signature Address} {genDoc : GenesisDoc PubKey} {now : ℤ}
  {genesis : State PubKey Address} {blocks : List Applied} {states : List (State PubKey Address)}

theorem isGenesis_of_makeGenesisState
    (hgenesis : makeGenesisState crypto now genDoc = .ok genesis) :
    IsGenesis genDoc genesis := by
  unfold makeGenesisState at hgenesis
  simp only [Results.bind_eq_ok_iff] at hgenesis
  obtain ⟨⟨time, params⟩, hcomplete, _, _, _, _, lastValSet, hlast, hreturn⟩ := hgenesis
  cases hreturn
  cases hlast
  cases hvalid : genDoc.validateAndComplete now with
  | error error =>
    rw [hvalid] at hcomplete
    cases hcomplete
  | ok completed =>
    rw [hvalid] at hcomplete
    cases hcomplete
    exact ⟨rfl, rfl, rfl, validParams_of_validateAndComplete hvalid, rfl, rfl⟩

theorem loadValidators_of_run (hgenesis : IsGenesis genDoc genesis)
    (hblocks : Successive genDoc.blockStartNum blocks)
    (hrun : statesFrom crypto wire genesis blocks = .ok states) {index : ℕ}
    {t : State PubKey Address} (ht : states[index]? = some t) :
    ∃ valSet, loadValidators (saveStates states) (genDoc.blockStartNum + 1 + index) =
      .ok (some valSet) ∧ valSet.members = t.validators.members := by
  rw [← hgenesis.lastBlockHeight] at hblocks ⊢
  have hhistory : Versions.History (genesis.lastBlockHeight + 1) (states.map validatorEntry) := by
    refine history_of_run hrun ?_ hblocks fun before block after hfollows ↦ ?_
    · have hchanged := hgenesis.lastHeightValidatorsChanged
      rw [← hgenesis.lastBlockHeight] at hchanged
      exact hchanged.le
    · rcases hfollows.validators with ⟨_, hsame⟩ | ⟨_, hnew⟩
      · exact .inr hsame
      · exact .inl hnew
  have hchanged : genesis.lastBlockHeight + 1 ≤ t.lastHeightValidatorsChanged := by
    refine statesFrom_induct
      (motive :=
        fun _ t ↦ genesis.lastBlockHeight + 1 ≤ t.lastHeightValidatorsChanged) hrun ?_ ?_ ht
    · rw [hgenesis.lastHeightValidatorsChanged, hgenesis.lastBlockHeight]
    · intro position before block after hblock hfollows hbefore
      rcases hfollows.validators with ⟨_, hsame⟩ | ⟨_, hnew⟩
      · exact hbefore.trans_eq (congrArg Versions.Entry.changed hsame).symm
      · rw [hnew, hblocks.height hblock]
        omega
  have hentry : (states.map validatorEntry)[index]? = some (validatorEntry t) := by
    rw [List.getElem?_map, ht, Option.map_some]
  rw [loadValidators_iff_resolve, saveStates,
    validatorVersions_foldl (consecutive_of_run hrun hblocks)]
  exact (Versions.resolve_saveAll hhistory hentry).trans (if_pos hchanged)

theorem loadConsensusParams_of_run_iff (hgenesis : IsGenesis genDoc genesis)
    (hstart : 0 ≤ genDoc.blockStartNum) (hblocks : Successive genDoc.blockStartNum blocks)
    (hrun : statesFrom crypto wire genesis blocks = .ok states) {index : ℕ}
    {t : State PubKey Address} (ht : states[index]? = some t) :
    loadConsensusParams (saveStates states) (genDoc.blockStartNum + 1 + index) =
        .ok t.consensusParams ↔
      genDoc.blockStartNum < t.lastHeightConsensusParamsChanged := by
  have hvalid := validParams_of_run hrun hgenesis.validParams
  rw [← hgenesis.lastBlockHeight] at hstart hblocks ⊢
  have hhistory : Versions.History (genesis.lastBlockHeight + 1) (states.map paramEntry) := by
    refine history_of_run hrun ?_ hblocks fun before block after hfollows ↦ ?_
    · have hchanged : (paramEntry genesis).changed = 1 := hgenesis.lastHeightConsensusParamsChanged
      omega
    · rcases hfollows.params with ⟨_, hsame⟩ | ⟨_, _, hnew⟩
      · exact .inr hsame
      · exact .inl hnew
  have hentry : (states.map paramEntry)[index]? = some (paramEntry t) := by
    rw [List.getElem?_map, ht, Option.map_some]
  rw [loadConsensusParams_iff_resolve (hvalid t (List.mem_of_getElem? ht)).ne_empty, saveStates,
    paramVersions_foldl (consecutive_of_run hrun hblocks) hvalid]
  have hresolve := Versions.resolve_saveAll hhistory hentry
  constructor
  · intro hfound
    rw [show paramVersions (StateDB.empty : StateDB PubKey Address) = fun _ ↦ none from rfl,
      hresolve] at hfound
    split at hfound
    next hle => exact hle
    next => cases hfound
  · intro hchanged
    exact hresolve.trans (if_pos hchanged)

theorem lastHeightConsensusParamsChanged_gt_iff (hgenesis : IsGenesis genDoc genesis)
    (hstart : 0 ≤ genDoc.blockStartNum) (hblocks : Successive genDoc.blockStartNum blocks)
    (hrun : statesFrom crypto wire genesis blocks = .ok states) {index : ℕ}
    {t : State PubKey Address} (ht : states[index]? = some t) :
    genDoc.blockStartNum < t.lastHeightConsensusParamsChanged ↔
      genDoc.blockStartNum = 0 ∨
        ∃ block ∈ blocks.take index, block.responses.consensusParamUpdates ≠ none := by
  refine statesFrom_induct
    (motive := fun index t ↦ genDoc.blockStartNum < t.lastHeightConsensusParamsChanged ↔
      genDoc.blockStartNum = 0 ∨
        ∃ block ∈ blocks.take index, block.responses.consensusParamUpdates ≠ none) hrun ?_ ?_ ht
  · rw [hgenesis.lastHeightConsensusParamsChanged]
    simp only [List.take_zero, List.not_mem_nil, false_and, exists_false, or_false]
    omega
  · intro position before block after hblock hfollows hbefore
    have htake : blocks.take (position + 1) = blocks.take position ++ [block] := by
      rw [List.take_add_one, hblock, Option.toList_some]
    simp only [htake, List.mem_append, List.mem_singleton, or_and_right, exists_or, exists_eq_left]
    rcases hfollows.params with ⟨hnone, hsame⟩ | ⟨hsome, _, hnew⟩
    · have hchanged : after.lastHeightConsensusParamsChanged =
          before.lastHeightConsensusParamsChanged := congrArg Versions.Entry.changed hsame
      simp only [hchanged, hbefore, hnone, ne_eq, not_true_eq_false, or_false]
    · rw [hnew, hblocks.height hblock]
      simp only [hsome, ne_eq, not_false_eq_true, or_true, iff_true]
      omega

/-- At every height of a run the validators in force can be read back. The parameters in force can
be read back exactly at the heights after a change of them by a block, and at every height if the
chain starts at height 0. -/
theorem historical_lookup (hgenesis : makeGenesisState crypto now genDoc = .ok genesis)
    (hstart : 0 ≤ genDoc.blockStartNum) (hblocks : Successive genDoc.blockStartNum blocks)
    (hrun : statesFrom crypto wire genesis blocks = .ok states) {final : State PubKey Address}
    (hfinal : states.getLast? = some final) {height : ℤ}
    (hafter : genDoc.blockStartNum < height) (hbefore : height ≤ final.lastBlockHeight + 1) :
    ∃ (index : ℕ) (inForce : State PubKey Address),
      states[index]? = some inForce ∧ inForce.lastBlockHeight + 1 = height ∧
      (∃ valSet, loadValidators (saveStates states) height = .ok (some valSet) ∧
        valSet.members = inForce.validators.members) ∧
      (loadConsensusParams (saveStates states) height = .ok inForce.consensusParams ↔
        genDoc.blockStartNum = 0 ∨
          ∃ block ∈ blocks.take index, block.responses.consensusParamUpdates ≠ none) := by
  have hmade := isGenesis_of_makeGenesisState hgenesis
  have hconsecutive : Consecutive genDoc.blockStartNum states := by
    rw [← hmade.lastBlockHeight] at hblocks ⊢
    exact consecutive_of_run hrun hblocks
  obtain ⟨index, hindex⟩ : ∃ index : ℕ, height = genDoc.blockStartNum + 1 + index :=
    ⟨(height - genDoc.blockStartNum - 1).toNat, by omega⟩
  have hlt : index < states.length := by
    rw [List.getLast?_eq_getElem?] at hfinal
    have hheight := hconsecutive _ final hfinal
    have hpos := (List.getElem?_eq_some_iff.mp hfinal).1
    omega
  have hget : states[index]? = some states[index] := List.getElem?_eq_getElem hlt
  refine ⟨index, states[index], hget, ?_, ?_, ?_⟩
  · rw [hconsecutive index _ hget]
    omega
  · rw [hindex]
    exact loadValidators_of_run hmade hblocks hrun hget
  · rw [hindex, loadConsensusParams_of_run_iff hmade hstart hblocks hrun hget]
    exact lastHeightConsensusParamsChanged_gt_iff hmade hstart hblocks hrun hget

end Genesis

/-- A block without transactions to which the application answers with no updates. -/
def sampleApplied (height : ℤ) : Applied where
  blockID := ⟨[1], ⟨1, [1]⟩⟩
  header := ⟨"chain", height, 200, 0, .zero, 0, none, none, [], [], [], [], none, "proposer"⟩
  responses := ⟨[], [], none⟩
  appHash := [9]

/-- On a chain from height 0 the parameters of height 2 are found at height 1. -/
theorem historical_lookup_from_zero :
    ∃ states inForce, statesFrom sampleCrypto sampleWire (sampleState 0) [sampleApplied 1] =
        .ok states ∧ inForce ∈ states ∧
      loadConsensusParams (saveStates states) 2 = .ok inForce.consensusParams := by
  have hgenesis : makeGenesisState sampleCrypto 0 (sampleGenesis 0) = .ok (sampleState 0) := rfl
  have hrun : statesFrom sampleCrypto sampleWire (sampleState 0) [sampleApplied 1] = .ok _ := rfl
  have hblocks : Successive 0 [sampleApplied 1] := ⟨rfl, trivial⟩
  obtain ⟨index, inForce, hget, -, -, hparams⟩ := historical_lookup hgenesis le_rfl hblocks hrun
    rfl (show (0 : ℤ) < 2 by decide) (by decide)
  exact ⟨_, inForce, hrun, List.mem_of_getElem? hget, hparams.mpr (.inl rfl)⟩

/-- On a chain from height 5 the parameters of height 6 are looked for at height 1. -/
theorem lookup_panics_after_late_start :
    makeGenesisState sampleCrypto 0 (sampleGenesis 5) = .ok (sampleState 5) ∧
      statesFrom sampleCrypto sampleWire (sampleState 5) [] = .ok [sampleState 5] ∧
      loadConsensusParams (saveStates [sampleState 5]) 6 = .error (.panic .nilDereference) :=
  ⟨rfl, rfl, rfl⟩

end LkChain.Tendermint.History
