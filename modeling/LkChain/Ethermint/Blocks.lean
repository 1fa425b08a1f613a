import LkChain.Ethermint.Pending
import Mathlib.Order.Lattice
import Mathlib.Algebra.Order.Ring.Int

/-!
# Blocks

The life of a block between `BeginBlock` and `Commit`: the header gets its coinbase, time and
difficulty, transactions are delivered one by one, the state is committed, the block is written to
the chain, and a new work is opened on the head of the chain (`ethereum/pending.go`,
`WriteBlockAndState` of `core/blockchain.go`, `CalcDifficulty` of `consensus/ethash`).

A block becomes the head only if its total difficulty is high enough. The difficulty of a block is
at least the minimum, so a block built on the head always is.
-/

namespace LkChain.Ethermint.Blocks

open Ethereum State Transactions Calls Transition Outcomes Pending

/-! ## Difficulty -/

def minimumDifficulty : ℤ := 131072
def difficultyBoundDivisor : ℤ := 2048
def durationLimit : ℤ := 13
def expDiffPeriod : ℤ := 100000

/-- The exponential factor. -/
def expDiff (periodCount : ℤ) : ℤ := if 1 < periodCount then 2 ^ (periodCount - 2).toNat else 0

/-- The adjustment that Homestead and Byzantium share: `x` is bounded from below by -99. -/
def adjusted (parent : Header) (x : ℤ) : ℤ :=
  max (parent.difficulty + parent.difficulty / difficultyBoundDivisor * max x (-99))
    minimumDifficulty

def calcDifficultyByzantium (time : ℕ) (parent : Header) (emptyUncles : Bool) : ℤ :=
  let x := (if emptyUncles then 1 else 2) - ((time : ℤ) - parent.time) / 9
  let fakeBlockNumber : ℤ := if 2999999 ≤ parent.number then parent.number - 2999999 else 0
  adjusted parent x + expDiff (fakeBlockNumber / expDiffPeriod)

def calcDifficultyHomestead (time : ℕ) (parent : Header) : ℤ :=
  let x := 1 - ((time : ℤ) - parent.time) / 10
  adjusted parent x + expDiff (((parent.number : ℤ) + 1) / expDiffPeriod)

/-- The Frontier rule. Its last step, a maximum with the minimal difficulty, has no effect. -/
def calcDifficultyFrontier (time : ℕ) (parent : Header) : ℤ :=
  let adjust := parent.difficulty / difficultyBoundDivisor
  let diff := if (time : ℤ) - parent.time < durationLimit then parent.difficulty + adjust
    else parent.difficulty - adjust
  max diff minimumDifficulty + expDiff (((parent.number : ℤ) + 1) / expDiffPeriod)

/-- `CalcDifficulty`. The parent header handed over by `updateHeaderWithTimeInfo` has no uncle hash,
which does not equal the hash of an empty uncle list. -/
def calcDifficulty (config : ChainConfig) (time : ℕ) (parent : Header) : ℤ :=
  if config.isByzantium (parent.number + 1) then calcDifficultyByzantium time parent false
  else if config.isHomestead (parent.number + 1) then calcDifficultyHomestead time parent
  else calcDifficultyFrontier time parent

theorem expDiff_nonneg (periodCount : ℤ) : 0 ≤ expDiff periodCount := by
  unfold expDiff
  split_ifs
  · exact pow_nonneg (by decide) _
  · exact le_rfl

theorem minimumDifficulty_le (config : ChainConfig) (time : ℕ) (parent : Header) :
    minimumDifficulty ≤ calcDifficulty config time parent := by
  have hadd : ∀ diff periodCount : ℤ,
      minimumDifficulty ≤ max diff minimumDifficulty + expDiff periodCount := by
    intro diff periodCount
    have hmax := le_max_right diff minimumDifficulty
    have hexp := expDiff_nonneg periodCount
    omega
  unfold calcDifficulty
  split_ifs
  · exact hadd _ _
  · exact hadd _ _
  · exact hadd _ _

/-! ## Beginning a block -/

def targetGasLimit : ℕ := 5000000000

/-- `newBlockHeader`; time and difficulty are filled in when the block begins. -/
def newBlockHeader (prevBlock : Block) : Header where
  number := prevBlock.header.number + 1
  time := 0
  coinbase := prevBlock.header.coinbase
  gasLimit := targetGasLimit
  difficulty := 0

/-- `resetWork`: a new work on the head of the chain. -/
def resetWork (currentBlock : Block) : Work where
  header := newBlockHeader currentBlock
  parent := currentBlock
  state := StateDB.new currentBlock.trie
  txIndex := 0
  transactions := []
  receipts := []
  allLogs := []
  totalUsedGas := 0

/-- `UpdateHeader`: coinbase, time and difficulty of the block, and fresh lists for its contents. -/
def updateHeader (config : ChainConfig) (coinbase : Address) (time : ℕ) (w : Work) : Work :=
  { w with
    header :=
      { w.header with
        coinbase := coinbase
        time := time
        difficulty := calcDifficulty config time w.parent.header }
    transactions := []
    receipts := []
    allLogs := [] }

/-! ## Committing a block -/

def newAccount1 : Address := 0x135c778bd602e0293789054b1528b4d7f82e12e7
def newAccount2 : Address := 0xbc00eaff37285b99c9a1d9b0fd402229154b1ae9
def newAccount3 : Address := 0x2f9d34185d79c98a15eadd8ec53d0cc67411f3f5

def oldAccounts : List Address :=
  [0x4622bbc278e3b88a81021db21f6d8b0b5c02c3a7, 0x8d77df64b61de4f974cbc3ebeda06c5bf601875e,
    0xd36dafe80c53ec793e1886b33be8da99550b1806, 0xf26597e6d6259c69d0b6dba9ca6b546221ad7bc0,
    0xab52d156e61856d68b665564bacd88cc9cf1f99f]

/-- `accountBalanceFork`: at one height five accounts are emptied in favour of three others. -/
def accountBalanceFork (height : ℕ) (state : StateDB) : StateDB :=
  if height ≠ 904411 then state
  else
    let total := (oldAccounts.map state.getBalance).sum
    let bal1 : ℤ := 260000000000000000000000000
    let bal2 : ℤ := 5000000000000000000000000
    if total < bal1 + bal2 then state
    else
      let state := state.addBalance newAccount1 bal1
      let state := state.addBalance newAccount2 bal2
      let state := state.addBalance newAccount3 (total - (bal1 + bal2))
      oldAccounts.foldl (fun state address ↦ state.setBalance address 0) state

/-- What the databases answer during a commit: the state cannot be written, the block cannot be
written, the state of the new head cannot be opened, or none of these. `coin` is the random choice
between blocks of equal difficulty and height. -/
inductive CommitOutcome where
  | stateFails
  | writeFails
  | resetFails
  | stored (coin : Bool)

/-- The fork choice of `WriteBlockAndState`. -/
def reorg (currentBlock block : Block) (coin : Bool) : Bool :=
  currentBlock.td < block.td ||
    (block.td == currentBlock.td &&
      (block.header.number < currentBlock.header.number ||
        (block.header.number == currentBlock.header.number && coin)))

/-- The chain with the work on top of its head. -/
structure Node where
  currentBlock : Block
  work : Work
  linked : work.parent = currentBlock

/-- The block that a work is committed as. -/
def blockOf (w : Work) : Block :=
  ⟨w.header, w.header.difficulty + w.parent.td,
    (accountBalanceFork w.header.number w.state).commitTo false⟩

/-- `pending.commit`. A block that cannot be written leaves the work in place, with the committed
state; a written one is followed by a new work on the head of the chain. If there is no new work,
the error of the application's `Commit` ends the node. -/
def Node.commit (node : Node) (outcome : CommitOutcome) : Except Panic Node :=
  match outcome with
  | .stateFails => .error .commitState
  | .resetFails => .error .resetWork
  | .writeFails =>
    .ok
      { node with
        work :=
          { node.work with
            state :=
              (accountBalanceFork node.work.header.number node.work.state).committed false } }
  | .stored coin =>
    let block := blockOf node.work
    let head := if reorg node.currentBlock block coin then block else node.currentBlock
    .ok ⟨head, resetWork head, rfl⟩

/-- Deliver one transaction to the work of the node. -/
def Node.deliver (env : Environment) (node : Node) (written : Bool) (tx : Transaction) :
    Except Panic (Node × Option DeliverError) :=
  match hdelivered : deliverTx env written node.work tx with
  | .error panic => .error panic
  | .ok (after, error) =>
    .ok (⟨node.currentBlock, after, (deliverTx_parent hdelivered).trans node.linked⟩, error)

/-- Begin a block on the work of the node. -/
def Node.beginBlock (env : Environment) (node : Node) (coinbase : Address) (time : ℕ) : Node :=
  ⟨node.currentBlock, updateHeader env.config coinbase time node.work, node.linked⟩

/-- A block whose header has been filled in replaces the head that it was built on. -/
theorem reorg_block (node : Node) (coin : Bool) (hdifficulty : 0 < node.work.header.difficulty) :
    reorg node.currentBlock (blockOf node.work) coin = true := by
  have htd : node.currentBlock.td < (blockOf node.work).td := by
    unfold blockOf
    rw [node.linked]
    simpa using hdifficulty
  simp [reorg, htd]

theorem standing_accountBalanceFork (height : ℕ) (state : StateDB) :
    (accountBalanceFork height state).standing = state.standing := by
  have hfold : ∀ (accounts : List Address) (start : StateDB),
      (accounts.foldl (fun state address ↦ state.setBalance address 0) start).standing =
        start.standing := by
    intro accounts
    induction accounts with
    | nil => exact fun _ ↦ rfl
    | cons address accounts ih => exact fun start ↦ (ih _).trans (StateDB.standing_setBalance 0)
  unfold accountBalanceFork
  simp only
  split_ifs
  · rfl
  · rfl
  · simp [hfold]

theorem steady_accountBalanceFork {state : StateDB} {observed : Address}
    (hnonce : (state.standing observed).nonce ≠ 0) (height : ℕ) :
    StateDB.Steady state (accountBalanceFork height state) observed := by
  have hfold : ∀ (accounts : List Address) (start : StateDB),
      (start.standing observed).nonce ≠ 0 → StateDB.Steady start
        (accounts.foldl (fun state address ↦ state.setBalance address 0) start) observed := by
    intro accounts
    induction accounts with
    | nil => exact fun start _ ↦ .refl _ _
    | cons address accounts ih =>
      intro start hstart
      exact (StateDB.steady_setBalance hstart 0).trans
        (ih _ (by rwa [StateDB.standing_setBalance]))
  unfold accountBalanceFork
  simp only
  split_ifs
  · exact .refl _ _
  · exact .refl _ _
  · refine (((StateDB.steady_addBalance hnonce _).trans (StateDB.steady_addBalance ?_ _)).trans
      (StateDB.steady_addBalance ?_ _)).trans (hfold _ _ ?_) <;> simpa using hnonce

end LkChain.Ethermint.Blocks
