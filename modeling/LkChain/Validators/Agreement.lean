import LkChain.Validators.Collect
import LkChain.Validators.NodeSet

/-!
# Agreement between the application and the consensus engine

The application revises its validators while a block is delivered, and hands a list of updates to
the engine at the end of the block. The engine repeats the check of the change and applies the list
to its own set. `Synced` is the relation between the two at the end of a block. It survives a block
in which at most one validator transaction passes the check, as long as that transaction names
canonical keys, does not overflow a sum and does not re-power a validator it has added itself.
-/

namespace LkChain.Validators.Agreement

open Foundation ParseTx TxBased VotingPower Collect
open NodeSet (Acceptable Follows)
open Tendermint.Types (Fallible)
open Tendermint.ValSet (ValidatorSet UpdateError)
open Tendermint.SortedSets (Proper keyPair decodedPair map_decodedPair)

section Blocks

variable {PubKey Signature Address : Type} [LinearOrder Address]

/-- The strategy of the application, and the validators in the state of the engine. -/
structure Node (PubKey Address : Type) where
  strategy : Strategy
  valSet : ValidatorSet PubKey Address

variable (codec : Codec) (crypto : Crypto PubKey Signature Address)

/-- `InitChain` with the validators of the engine. -/
def initChain (valSet : ValidatorSet PubKey Address) : Node PubKey Address where
  strategy := newValidatorsStrategy.setValidators
    (valSet.validators.map fun v ↦ ⟨crypto.bytes v.pubKey, v.votingPower⟩)
  valSet := valSet

/-- The validator transactions of a block, delivered in order. -/
def collectAll (strategy : Strategy) (txs : List String) : Strategy :=
  txs.foldl (fun strategy tx ↦ (strategy.collectTx codec crypto tx).1) strategy

/-- A block: its validator transactions, `EndBlock` and `updateState`. -/
def runBlock (node : Node PubKey Address) (txs : List String) :
    Fallible (UpdateError Address) (Node PubKey Address) := do
  let (updates, strategy) := (collectAll codec crypto node.strategy txs).getUpdateValidators
  let valSet ← node.valSet.updateState crypto updates
  return ⟨strategy, valSet⟩

def run (node : Node PubKey Address) (blocks : List (List String)) :
    Fallible (UpdateError Address) (Node PubKey Address) :=
      blocks.foldlM (runBlock codec crypto) node

/-- A transaction that both sides understand in the same way. Its change is measured against the
validators at the start of the block, and applied to those it meets. -/
structure OrderlyTx (start meets : Strategy) (data : ValidatorTx) : Prop where
  canonical : ∀ item ∈ data.txs, Canonical crypto item.pair.1
  total_lt : Roster.total start.pairs < 2 ^ 63
  drift_lt : Roster.drift start.table (data.txs.map Item.pair) < 2 ^ 63
  kept : repowers meets.table [] (data.txs.map Item.pair) = false

/-- At most one transaction of the block passes the check, and it is orderly. -/
def OrderlyBlock (strategy : Strategy) : List String → Prop
  | [] => True
  | tx :: rest =>
    match strategy.checkValidatorTx codec crypto tx with
    | .error _ => OrderlyBlock strategy rest
    | .ok data => OrderlyTx crypto strategy strategy data ∧
        ∀ later ∈ rest, ∃ error, (strategy.collectTx codec crypto tx).1.checkValidatorTx codec
          crypto later = .error error

/-- Every block is orderly in the state it meets. -/
def OrderlyRun (node : Node PubKey Address) : List (List String) → Prop
  | [] => True
  | txs :: rest => OrderlyBlock codec crypto node.strategy txs ∧
      ∀ next, runBlock codec crypto node txs = .ok next → OrderlyRun next rest

/-- The end of a block: no update is pending, and both sides hold the same powers. -/
structure Synced (node : Node PubKey Address) : Prop where
  wellFormed : node.strategy.WellFormed
  idle : node.strategy.updateValidators = []
  proper : Proper crypto node.valSet.validators
  agree : node.strategy.pairs.Perm (NodeSet.pairs crypto node.valSet)
  nonempty : node.valSet.validators ≠ []

end Blocks

section Delivery

variable {PubKey Signature Address : Type} {codec : Codec}
  {crypto : Crypto PubKey Signature Address}

theorem current_setValidators (strategy : Strategy) (validators : List Validator) :
    (strategy.setValidators validators).current = validators := by
  unfold Strategy.current Strategy.setValidators
  apply List.ext_getElem
  · rw [List.length_map, List.length_range']
  · intro index hindex hvalidators
    simp [List.getD_eq_getElem?_getD, hvalidators]

theorem wellFormed_setValidators (strategy : Strategy) (validators : List Validator) :
    (strategy.setValidators validators).WellFormed where
  nodup := List.nodup_range'
  allocated _ href := (List.mem_range'_1.mp href).2

/-- What the transactions of an orderly block leave for `EndBlock`: admissible updates under
canonical keys, which the current validators have followed already. -/
structure Delivered (crypto : Crypto PubKey Signature Address) (strategy after : Strategy) :
    Prop where
  wellFormed : after.WellFormed
  canonical : ∀ v ∈ after.updates, Canonical crypto v.pubKey
  admissible : after.updates ≠ [] → Sized strategy.pairs ∧
    Admissible strategy.pairs strategy.table (after.updates.map Validator.pair)
  represents : Roster.Represents after.pairs
    (Roster.reviseAll strategy.table (after.updates.map Validator.pair))

theorem collectAll_of_rejected {strategy : Strategy} {txs : List String}
    (hrejected : ∀ tx ∈ txs, ∃ error, strategy.checkValidatorTx codec crypto tx = .error error) :
    collectAll codec crypto strategy txs = strategy := by
  induction txs with
  | nil => rfl
  | cons tx rest ih =>
    obtain ⟨error, herror⟩ := hrejected tx List.mem_cons_self
    unfold collectAll at ih ⊢
    rw [List.foldl_cons, collectTx_of_error herror]
    exact ih fun later hlater ↦ hrejected later (List.mem_cons_of_mem _ hlater)

theorem delivered_of_idle {strategy : Strategy} (hwellFormed : strategy.WellFormed)
    (hidle : strategy.updateValidators = [])
    (hpairs : Roster.Represents strategy.pairs strategy.table) :
    Delivered crypto strategy strategy := by
  have hupdates : strategy.updates = [] := by rw [Strategy.updates, hidle, List.map_nil]
  refine ⟨hwellFormed, ?_, ?_, ?_⟩
  · rw [hupdates]
    exact fun v hv ↦ absurd hv List.not_mem_nil
  · exact fun hpending ↦ absurd hupdates hpending
  · rw [hupdates]
    exact hpairs

theorem collectTx_delivered {strategy : Strategy} {tx : String} {data : ValidatorTx}
    (hwellFormed : strategy.WellFormed) (hnonneg : ∀ pair ∈ strategy.pairs, 0 ≤ pair.2)
    (hpairs : Roster.Represents strategy.pairs strategy.table)
    (hcheck : strategy.checkValidatorTx codec crypto tx = .ok data)
    (htx : OrderlyTx crypto strategy strategy data) :
    Delivered crypto strategy (strategy.collectTx codec crypto tx).1 := by
  have hsized : Sized strategy.pairs := ⟨hnonneg, htx.total_lt⟩
  obtain ⟨hadmissible, after, hcollect, hafter, hrevised, hitems⟩ :=
    collectTx_accepted hwellFormed hpairs hsized hcheck htx.drift_lt
  rw [settled_of_kept htx.kept] at hitems
  rw [hcollect]
  refine ⟨hafter, ?_, ?_, ?_⟩
  · intro v hv
    have hpair : v.pair ∈ after.updates.map Validator.pair := List.mem_map_of_mem hv
    rw [hitems] at hpair
    obtain ⟨item, hitem, hkey⟩ := List.mem_map.mp hpair
    have hcanonical := htx.canonical item hitem
    rwa [hkey] at hcanonical
  · rw [hitems]
    exact fun _ ↦ ⟨hsized, hadmissible⟩
  · rw [hitems]
    exact hrevised

theorem collectAll_delivered {strategy : Strategy} {txs : List String}
    (hwellFormed : strategy.WellFormed) (hidle : strategy.updateValidators = [])
    (hnonneg : ∀ pair ∈ strategy.pairs, 0 ≤ pair.2)
    (hpairs : Roster.Represents strategy.pairs strategy.table)
    (horderly : OrderlyBlock codec crypto strategy txs) :
    Delivered crypto strategy (collectAll codec crypto strategy txs) := by
  induction txs with
  | nil => exact delivered_of_idle hwellFormed hidle hpairs
  | cons tx rest ih =>
    unfold OrderlyBlock at horderly
    have hstep : collectAll codec crypto strategy (tx :: rest) =
        collectAll codec crypto (strategy.collectTx codec crypto tx).1 rest := rfl
    rw [hstep]
    cases hcheck : strategy.checkValidatorTx codec crypto tx with
    | error error =>
      rw [hcheck] at horderly
      rw [collectTx_of_error hcheck]
      exact ih horderly
    | ok data =>
      rw [hcheck] at horderly
      obtain ⟨htx, hlater⟩ := horderly
      rw [collectAll_of_rejected hlater]
      exact collectTx_delivered hwellFormed hnonneg hpairs hcheck htx

variable [LinearOrder Address] {node : Node PubKey Address}

theorem Synced.represents (hsound : Sound crypto) (hsynced : Synced crypto node) :
    Roster.Represents node.strategy.pairs node.strategy.table :=
  Roster.represents_lookup
    ((NodeSet.represents_table hsound hsynced.proper).perm hsynced.agree.symm).nodup

theorem Synced.table_eq (hsound : Sound crypto) (hsynced : Synced crypto node) :
    node.strategy.table = NodeSet.table crypto node.valSet :=
  ((NodeSet.represents_table hsound hsynced.proper).perm hsynced.agree.symm).lookup_eq

theorem Synced.nonneg (hsynced : Synced crypto node) : ∀ pair ∈ node.strategy.pairs, 0 ≤
    pair.2 := by
  intro pair hpair
  obtain ⟨v, hv, rfl⟩ := List.mem_map.mp (hsynced.agree.mem_iff.mp hpair)
  exact (hsynced.proper.each v hv).2

theorem initChain_synced {valSet : ValidatorSet PubKey Address}
    (hproper : Proper crypto valSet.validators) (hnonempty : valSet.validators ≠ []) :
    Synced crypto (initChain crypto valSet) := by
  have hpairs : (initChain crypto valSet).strategy.pairs = NodeSet.pairs crypto valSet := by
    rw [pairs_eq_map_current, initChain, current_setValidators, List.map_map]
    rfl
  refine ⟨wellFormed_setValidators _ _, rfl, hproper, ?_, hnonempty⟩
  rw [hpairs]
  exact List.Perm.refl _

/-- The engine accepts what an orderly block delivers, and follows. -/
theorem Delivered.updateState {after : Strategy} (hsound : Sound crypto)
    (hsynced : Synced crypto node) (hdelivered : Delivered crypto node.strategy after) :
    ∃ valSet, node.valSet.updateState crypto after.updates = .ok valSet ∧
      Follows crypto node.strategy.table (after.updates.map Validator.pair) valSet := by
  have hpairs : Roster.Represents (NodeSet.pairs crypto node.valSet) node.strategy.table :=
    (hsynced.represents hsound).perm hsynced.agree
  by_cases hpending : after.updates = []
  · rw [hpending]
    exact NodeSet.updateState_nil hsynced.proper hsynced.nonempty hpairs
  · obtain ⟨hsized, hadmissible⟩ := hdelivered.admissible hpending
    have hitems : (after.updates.map Validator.pair).map (decodedPair crypto) = _ :=
      map_decodedPair (List.forall_mem_map.mpr hdelivered.canonical)
    refine NodeSet.updateState_of_acceptable hsound hsynced.proper hpairs
      (fun v hv ↦ (hadmissible.range v.pair (List.mem_map_of_mem hv)).1) hpending
      (Acceptable.perm ⟨?_, ?_, ?_⟩ hsynced.agree)
    · refine List.forall_mem_map.mpr fun v hv ↦ ?_
      obtain ⟨pubKey, hread, hsolid, -⟩ := hdelivered.canonical v hv
      exact ⟨pubKey, hread, hsolid⟩
    · rw [hitems]
      exact belowThird_of_drift_lt hsized (hsynced.represents hsound) hadmissible.range
        hadmissible.drift_lt
    · rw [hitems]
      exact Roster.exists_isSome_reviseAll (hsynced.represents hsound)
        (fun item hitem ↦ (hadmissible.range item hitem).1) (hadmissible.drift_lt_total hsized)

theorem runBlock_synced {txs : List String} (hsound : Sound crypto) (hsynced : Synced crypto node)
    (horderly : OrderlyBlock codec crypto node.strategy txs) :
    ∃ next, runBlock codec crypto node txs = .ok next ∧ Synced crypto next := by
  have hdelivered := collectAll_delivered hsynced.wellFormed hsynced.idle hsynced.nonneg
    (hsynced.represents hsound) horderly
  obtain ⟨valSet, hstate, hfollows⟩ := hdelivered.updateState hsound hsynced
  have hitems : ((collectAll codec crypto node.strategy txs).updates.map Validator.pair).map
      (decodedPair crypto) = _ :=
    map_decodedPair (List.forall_mem_map.mpr hdelivered.canonical)
  have hfollowed := hfollows.represents
  rw [hitems] at hfollowed
  refine ⟨⟨{ collectAll codec crypto node.strategy txs with updateValidators := [] }, valSet⟩, ?_,
    hdelivered.wellFormed.cleared, rfl, hfollows.proper, ?_, hfollows.nonempty⟩
  · unfold runBlock Strategy.getUpdateValidators
    dsimp only
    rw [hstate]
    rfl
  · exact hdelivered.represents.perm_of hfollowed

end Delivery

/-! ## Runs -/

section Runs

variable {PubKey Signature Address : Type} [LinearOrder Address] {codec : Codec}
  {crypto : Crypto PubKey Signature Address}

theorem run_synced (hsound : Sound crypto) {node : Node PubKey Address}
    {blocks : List (List String)} (hsynced : Synced crypto node)
    (horderly : OrderlyRun codec crypto node blocks) :
    ∃ next, run codec crypto node blocks = .ok next ∧ Synced crypto next := by
  induction blocks generalizing node with
  | nil => exact ⟨node, rfl, hsynced⟩
  | cons txs rest ih =>
    obtain ⟨hblock, hrest⟩ := horderly
    obtain ⟨next, hrun, hnext⟩ := runBlock_synced hsound hsynced hblock
    obtain ⟨last, hlast, hsynced⟩ := ih hnext (hrest next hrun)
    refine ⟨last, ?_, hsynced⟩
    unfold run at hlast ⊢
    rw [List.foldlM_cons, hrun]
    exact hlast

theorem OrderlyRun.take {node : Node PubKey Address} {blocks : List (List String)}
    (horderly : OrderlyRun codec crypto node blocks) (count : ℕ) :
    OrderlyRun codec crypto node (blocks.take count) := by
  induction blocks generalizing node count with
  | nil =>
    rw [List.take_nil]
    exact horderly
  | cons txs rest ih =>
    cases count with
    | zero => exact trivial
    | succ count =>
      obtain ⟨hblock, hrest⟩ := horderly
      exact ⟨hblock, fun next hrun ↦ ih (hrest next hrun) count⟩

/-- After each block of an orderly run both sides hold the same key-to-power map. -/
theorem run_agrees (codec : Codec) (hsound : Sound crypto) (valSet : ValidatorSet PubKey Address)
    (hproper : Proper crypto valSet.validators) (hnonempty : valSet.validators ≠ [])
    (blocks : List (List String))
    (horderly : OrderlyRun codec crypto (initChain crypto valSet) blocks) (count : ℕ) :
    ∃ node, run codec crypto (initChain crypto valSet) (blocks.take count) = .ok node ∧
      node.strategy.table = NodeSet.table crypto node.valSet := by
  obtain ⟨node, hrun, hsynced⟩ :=
    run_synced hsound (initChain_synced hproper hnonempty) (horderly.take count)
  exact ⟨node, hrun, hsynced.table_eq hsound⟩

end Runs

/-! ## Blocks that are not orderly -/

theorem sound_sampleCrypto : Sound sampleCrypto where
  address_injective _ _ hsame := UInt8.toNat_inj.mp hsame
  fromBytes_bytes _ := rfl

/-- Four validators of power ten. -/
def fourValidators : ValidatorSet UInt8 ℕ :=
  .of [⟨170, 0xaa, 10, 0⟩, ⟨187, 0xbb, 10, 0⟩, ⟨204, 0xcc, 10, 0⟩, ⟨221, 0xdd, 10, 0⟩]

theorem proper_fourValidators : Proper sampleCrypto fourValidators.validators where
  sorted := by
    unfold SortedSearch.Sorted
    decide
  each := by decide

/-- New powers, signed by three of the four validators. -/
def signedByThree (powers : List Item) : ValidatorTx where
  txs := powers
  sign := goMap [("aa", "0xaa"), ("bb", "0xbb"), ("cc", "0xcc")]

/-- The first validator gets two more votes. -/
def raiseFirst : ValidatorTx :=
  signedByThree [{ cmd := "", pubKey := "aa", power := 12, name := "" }]

/-- The second validator gets two more votes. -/
def raiseSecond : ValidatorTx :=
  signedByThree [{ cmd := "", pubKey := "bb", power := 12, name := "" }]

theorem orderlyTx_raiseFirst :
    OrderlyTx sampleCrypto (initChain sampleCrypto fourValidators).strategy
    (initChain sampleCrypto fourValidators).strategy raiseFirst := by
  refine ⟨?_, by decide, by decide, by decide⟩
  intro item hitem
  cases List.mem_singleton.mp hitem
  exact ⟨0xaa, rfl, rfl, rfl⟩

theorem orderly_raiseFirst : OrderlyBlock (sampleCodec [raiseFirst]) sampleCrypto
    (initChain sampleCrypto fourValidators).strategy ["0x00"] := by
  have hcheck : (initChain sampleCrypto fourValidators).strategy.checkValidatorTx
      (sampleCodec [raiseFirst]) sampleCrypto "0x00" = .ok raiseFirst := rfl
  unfold OrderlyBlock
  rw [hcheck]
  exact ⟨orderlyTx_raiseFirst, fun later hlater ↦ absurd hlater List.not_mem_nil⟩

theorem run_agrees_raiseFirst :
    ∃ node, run (sampleCodec [raiseFirst]) sampleCrypto (initChain sampleCrypto fourValidators)
      [["0x00"]] = .ok node ∧ node.strategy.table = NodeSet.table sampleCrypto node.valSet :=
  run_agrees (sampleCodec [raiseFirst]) sound_sampleCrypto fourValidators proper_fourValidators
    (by decide) [["0x00"]] ⟨orderly_raiseFirst, fun _ _ ↦ trivial⟩ 1

/-- Two transactions of one block: the second replaces the pending update of the first, so only the
application follows both. -/
theorem run_disagrees_two_updates :
    ∃ node, run (sampleCodec [raiseFirst, raiseSecond]) sampleCrypto
      (initChain sampleCrypto fourValidators) [["0x00", "0x01"]] = .ok node ∧
      node.strategy.table [0xaa] = some 12 ∧
      NodeSet.table sampleCrypto node.valSet [0xaa] = some 10 :=
  ⟨_, rfl, rfl, rfl⟩

end LkChain.Validators.Agreement
