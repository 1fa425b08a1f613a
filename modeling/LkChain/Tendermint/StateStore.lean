import LkChain.Foundation.Versions
import LkChain.Tendermint.ChainState

/-!
# The state database

The records of `state/store.go`: the state itself, the responses of the application by height, and
the validators and the parameters by height, which are kept as versions. A record is read back as it
was written, except for the cached total of a validator set, which is not part of its encoding.
-/

namespace LkChain.Tendermint.StateStore

open Foundation Tendermint.Types ValSet ChainState

variable {PubKey Signature Address : Type}

/-- A validator set as it is read back. -/
def written (valSet : ValidatorSet PubKey Address) : ValidatorSet PubKey Address :=
  { valSet with cachedTotal := 0, cached := .inl rfl }

/-- A state as it is read back. -/
def writtenState (s : State PubKey Address) : State PubKey Address :=
  { s with validators := written s.validators, lastValidators := written s.lastValidators }

structure ValidatorsInfo (PubKey Address : Type) where
  validatorSet : Option (ValidatorSet PubKey Address)
  lastHeightChanged : ℤ
deriving DecidableEq

/-- `ConsensusParamsInfo`; there are no parameters when they are empty. -/
structure ConsensusParamsInfo where
  consensusParams : ConsensusParams
  lastHeightChanged : ℤ
deriving DecidableEq

/-- The database, by the kinds of its keys. -/
structure StateDB (PubKey Address : Type) where
  state : Option (State PubKey Address)
  validatorsInfo : ℤ → Option (ValidatorsInfo PubKey Address)
  consensusParamsInfo : ℤ → Option ConsensusParamsInfo
  abciResponses : ℤ → Option ABCIResponses

/-- A new database. -/
def StateDB.empty : StateDB PubKey Address := ⟨none, fun _ ↦ none, fun _ ↦ none, fun _ ↦ none⟩

variable (db : StateDB PubKey Address)

def saveValidatorsInfo (nextHeight changeHeight : ℤ) (valSet : ValidatorSet PubKey Address) :
    StateDB PubKey Address :=
  let valInfo : ValidatorsInfo PubKey Address :=
    ⟨if changeHeight = nextHeight then some (written valSet) else none, changeHeight⟩
  { db with validatorsInfo := Function.update db.validatorsInfo nextHeight (some valInfo) }

def saveConsensusParamsInfo (nextHeight changeHeight : ℤ) (params : ConsensusParams) :
    StateDB PubKey Address :=
  let paramsInfo : ConsensusParamsInfo :=
    ⟨if changeHeight = nextHeight then params else .empty, changeHeight⟩
  { db with
    consensusParamsInfo := Function.update db.consensusParamsInfo nextHeight (some paramsInfo) }

def saveState (s : State PubKey Address) : StateDB PubKey Address :=
  let nextHeight := s.lastBlockHeight + 1
  let db := saveValidatorsInfo db nextHeight s.lastHeightValidatorsChanged s.validators
  let db := saveConsensusParamsInfo db nextHeight s.lastHeightConsensusParamsChanged
    s.consensusParams
  { db with state := some (writtenState s) }

def saveABCIResponses (height : ℤ) (responses : ABCIResponses) : StateDB PubKey Address :=
  { db with abciResponses := Function.update db.abciResponses height (some responses) }

def deleteABCIResponses (height : ℤ) : StateDB PubKey Address :=
  { db with abciResponses := Function.update db.abciResponses height none }

/-- The errors of loading a record. -/
inductive LoadError where
  | noABCIResponsesForHeight (height : ℤ)
  | noValSetForHeight (height : ℤ)
  | noConsensusParamsForHeight (height : ℤ)
deriving DecidableEq

def loadABCIResponses (height : ℤ) : Except LoadError ABCIResponses :=
  match db.abciResponses height with
  | none => .error (.noABCIResponsesForHeight height)
  | some responses => .ok responses

/-- `LoadValidators`; the set is nil when the record that is referred to holds none. The message of
the panic on a missing record dereferences nil itself. -/
def loadValidators (height : ℤ) : Fallible LoadError (Option (ValidatorSet PubKey Address)) :=
  match db.validatorsInfo height with
  | none => .error (.error (.noValSetForHeight height))
  | some valInfo =>
    if valInfo.validatorSet.isSome then .ok valInfo.validatorSet
    else
      match db.validatorsInfo valInfo.lastHeightChanged with
      | none => .error (.panic .nilDereference)
      | some valInfo => .ok valInfo.validatorSet

def loadConsensusParams (height : ℤ) : Fallible LoadError ConsensusParams :=
  match db.consensusParamsInfo height with
  | none => .error (.error (.noConsensusParamsForHeight height))
  | some paramsInfo =>
    if paramsInfo.consensusParams ≠ .empty then .ok paramsInfo.consensusParams
    else
      match db.consensusParamsInfo paramsInfo.lastHeightChanged with
      | none => .error (.panic .nilDereference)
      | some paramsInfo => .ok paramsInfo.consensusParams

/-- Looking validators up gives a set or an error at every height. -/
def Readable : Prop :=
  ∀ height, (∃ error, loadValidators db height = .error (.error error)) ∨
    ∃ valSet, loadValidators db height = .ok (some valSet)

theorem readable_empty : Readable (StateDB.empty : StateDB PubKey Address) :=
  fun _ ↦ .inl ⟨_, rfl⟩

/-! ## The records as versions -/

/-- The addresses, keys and powers of the validators of a height. -/
abbrev Members (PubKey Address : Type) := List (Address × PubKey × ℤ)

/-- The validators as versions, without their accumulators. -/
def validatorVersions : Versions.Store (Members PubKey Address) := fun height ↦
  (db.validatorsInfo height).map fun valInfo ↦
    ⟨valInfo.validatorSet.map ValidatorSet.members, valInfo.lastHeightChanged⟩

/-- The parameters as versions. -/
def paramVersions : Versions.Store ConsensusParams := fun height ↦
  (db.consensusParamsInfo height).map fun paramsInfo ↦
    ⟨if paramsInfo.consensusParams = .empty then none else some paramsInfo.consensusParams,
      paramsInfo.lastHeightChanged⟩

/-- The validators in force at the height after a state. -/
def validatorEntry (s : State PubKey Address) : Versions.Entry (Members PubKey Address) :=
  ⟨s.lastHeightValidatorsChanged, s.validators.members⟩

/-- The parameters in force at the height after a state. -/
def paramEntry (s : State PubKey Address) : Versions.Entry ConsensusParams :=
  ⟨s.lastHeightConsensusParamsChanged, s.consensusParams⟩

variable {db}

theorem loadABCIResponses_save {height : ℤ} {responses : ABCIResponses} :
    loadABCIResponses (saveABCIResponses db height responses) height = .ok responses := by
  unfold loadABCIResponses saveABCIResponses
  dsimp only
  rw [Function.update_self]

theorem saveABCIResponses_twice {height : ℤ} {before responses : ABCIResponses} :
    saveABCIResponses (saveABCIResponses db height before) height responses =
      saveABCIResponses db height responses := by
  unfold saveABCIResponses
  dsimp only
  rw [Function.update_idem]

theorem loadValidators_congr {db' : StateDB PubKey Address}
    (hinfo : db.validatorsInfo = db'.validatorsInfo) : loadValidators db = loadValidators db' := by
  unfold loadValidators
  rw [hinfo]

theorem loadConsensusParams_congr {db' : StateDB PubKey Address}
    (hinfo : db.consensusParamsInfo = db'.consensusParamsInfo) :
    loadConsensusParams db = loadConsensusParams db' := by
  unfold loadConsensusParams
  rw [hinfo]

theorem loadValidators_iff_resolve {height : ℤ} {members : Members PubKey Address} :
    (∃ valSet, loadValidators db height = .ok (some valSet) ∧ valSet.members = members) ↔
      Versions.resolve (validatorVersions db) height = some members := by
  unfold loadValidators Versions.resolve validatorVersions
  cases db.validatorsInfo height with
  | none => simp
  | some valInfo =>
    obtain ⟨valSet, changed⟩ := valInfo
    cases valSet with
    | some valSet => simp
    | none => cases hback : db.validatorsInfo changed <;> simp [hback]

theorem loadConsensusParams_iff_resolve {height : ℤ} {params : ConsensusParams}
    (hparams : params ≠ .empty) :
    loadConsensusParams db height = .ok params ↔
      Versions.resolve (paramVersions db) height = some params := by
  unfold loadConsensusParams Versions.resolve paramVersions
  cases db.consensusParamsInfo height with
  | none => simp
  | some paramsInfo =>
    obtain ⟨stored, changed⟩ := paramsInfo
    by_cases hempty : stored = .empty
    · cases hback : db.consensusParamsInfo changed with
      | none => simp [hempty, hback]
      | some paramsInfo =>
        by_cases hagain : paramsInfo.consensusParams = .empty
        · simp [hempty, hback, hagain, hparams.symm]
        · simp [hempty, hback, hagain]
    · simp [hempty]

theorem validatorVersions_saveState (s : State PubKey Address) :
    validatorVersions (saveState db s) =
      Versions.save (validatorVersions db) (s.lastBlockHeight + 1) (validatorEntry s) := by
  funext height
  unfold validatorVersions saveState saveConsensusParamsInfo saveValidatorsInfo Versions.save
  dsimp only
  by_cases hheight : height = s.lastBlockHeight + 1
  · subst hheight
    rw [Function.update_self, Function.update_self, Option.map_some]
    unfold Versions.Entry.record validatorEntry
    dsimp only
    split <;> rfl
  · rw [Function.update_of_ne hheight, Function.update_of_ne hheight]

theorem paramVersions_saveState {s : State PubKey Address} (hparams : s.consensusParams ≠ .empty) :
    paramVersions (saveState db s) =
      Versions.save (paramVersions db) (s.lastBlockHeight + 1) (paramEntry s) := by
  funext height
  unfold paramVersions saveState saveConsensusParamsInfo saveValidatorsInfo Versions.save
  dsimp only
  by_cases hheight : height = s.lastBlockHeight + 1
  · subst hheight
    rw [Function.update_self, Function.update_self, Option.map_some]
    unfold Versions.Entry.record paramEntry
    by_cases hchanged : s.lastHeightConsensusParamsChanged = s.lastBlockHeight + 1
    · simp [hchanged, hparams]
    · simp [hchanged]
  · rw [Function.update_of_ne hheight, Function.update_of_ne hheight]

end LkChain.Tendermint.StateStore
