import LkChain.Ethereum.Accounting
import LkChain.Ethermint.AtMostOnce
import Mathlib.Algebra.Order.BigOperators.Group.List

/-!
# The block that is written

`work.commit` turns the work into an Ethereum block and hands the logs of the block to the
subscribers. Nobody fills in `GasUsed` of the header: `accumulateRewards` would, but it has no
caller, so the header is copied with zero. The logs are stamped before there is a block hash, with
the root of the state. Receipts are what the deliveries appended: one for each transaction, with a
running total that grows with every one of them.

Hashes are functions of the data they are computed from.
-/

namespace LkChain.Ethermint.Sealing

open Ethereum State Transactions Calls Transition Outcomes Accounting
open Pending Blocks AtMostOnce

/-- `types.Header` as `work.commit` fills it in. `Extra`, `MixDigest`, `Nonce` and `OneHashSign`
are empty, and there are no uncles. -/
structure EthHeader where
  parentHash : Hash
  coinbase : Address
  root : Hash
  txHash : Hash
  receiptHash : Hash
  bloom : Option (List (List Log))
  difficulty : ℤ
  number : ℕ
  gasLimit : ℕ
  /-- A nil pointer in the header of the work. -/
  gasUsed : Option ℤ
  time : ℕ

/-- The hashes of the Ethereum library. -/
structure Hashing where
  blockHash : Block → Hash
  headerHash : EthHeader → Hash
  emptyRootHash : Hash
  deriveTransactions : List Transaction → Hash
  deriveReceipts : List Receipt → Hash

/-- `types.Block`. -/
structure EthBlock where
  header : EthHeader
  transactions : List Transaction

def EthBlock.hash (hashing : Hashing) (block : EthBlock) : Hash := hashing.headerHash block.header

/-- `CopyHeader`: a missing amount of gas becomes zero. -/
def copyHeader (header : EthHeader) : EthHeader :=
  { header with gasUsed := some (header.gasUsed.getD 0) }

/-- `NewBlock` without uncles. The bloom filter is computed from the logs of the receipts. -/
def newBlock (hashing : Hashing) (header : EthHeader) (txs : List Transaction)
    (receipts : List Receipt) : EthBlock where
  header :=
    { copyHeader header with
      txHash := if txs.isEmpty then hashing.emptyRootHash else hashing.deriveTransactions txs
      receiptHash :=
        if receipts.isEmpty then hashing.emptyRootHash else hashing.deriveReceipts receipts
      bloom := if receipts.isEmpty then header.bloom else some (receipts.map Receipt.logs) }
  transactions := txs

/-- A log with the hash it is stamped with. -/
structure StampedLog where
  log : Log
  blockHash : Hash

/-- What `work.commit` makes of a work: the block, its receipts and the logs for the subscribers. -/
structure Sealed where
  block : EthBlock
  receipts : List Receipt
  logs : List StampedLog

/-- The root of the state that `work.commit` writes. -/
def stateRoot (env : Environment) (w : Work) : Hash :=
  env.vm.trieHash ((accountBalanceFork w.header.number w.state).committed false)

/-- The header of a work with its state root. -/
def sealedHeader (env : Environment) (hashing : Hashing) (w : Work) : EthHeader where
  parentHash := hashing.blockHash w.parent
  coinbase := w.header.coinbase
  root := stateRoot env w
  txHash := 0
  receiptHash := 0
  bloom := none
  difficulty := w.header.difficulty
  number := w.header.number
  gasLimit := w.header.gasLimit
  gasUsed := none
  time := w.header.time

/-- `work.commit` up to the point where the block is written. -/
def sealWork (env : Environment) (hashing : Hashing) (w : Work) : Sealed where
  block := newBlock hashing (sealedHeader env hashing w) w.transactions w.receipts
  receipts := w.receipts
  logs := w.allLogs.map fun log ↦ ⟨log, stateRoot env w⟩

/-! ## Receipts -/

/-- What the deliveries of a block keep true of the work, when `start` was the gas total at its
beginning. -/
structure Filed (env : Environment) (start : ℤ) (w : Work) : Prop where
  hashes : w.receipts.map Receipt.txHash = w.transactions.map env.recovery.txHash
  total : w.totalUsedGas = start + (w.receipts.map Receipt.gasUsed).sum
  positive : ∀ receipt ∈ w.receipts, 0 < receipt.gasUsed
  le_total : ∀ receipt ∈ w.receipts, receipt.cumulativeGasUsed ≤ w.totalUsedGas
  increasing : w.receipts.Pairwise fun earlier later ↦
    earlier.cumulativeGasUsed < later.cumulativeGasUsed
  last : ∀ receipt ∈ w.receipts.getLast?, receipt.cumulativeGasUsed = w.totalUsedGas
  logs : w.transactions = [] → w.allLogs = []

variable {env : Environment} {start : ℤ} {w after : Work} {tx : Transaction}

theorem txGas_le_intrinsicGas (data : Bytes) (contractCreation homestead : Bool) :
    txGas ≤ intrinsicGas data contractCreation homestead := by
  have hbase : txGas ≤ if contractCreation && homestead then txGasContractCreation else txGas := by
    split
    · decide
    · exact le_rfl
  unfold intrinsicGas
  dsimp only
  split
  · exact hbase.trans ((Nat.le_add_right _ _).trans (Nat.le_add_right _ _))
  · exact hbase

theorem gasUsed_pos (hgas : KeepsGas env.vm) {state : StateDB} {header : Header} {msg : Message}
    (hcovers : Covers env state header msg) : 0 < gasUsed env state header msg := by
  have hunused := unusedGas_le hgas hcovers
  have hintrinsic : 21000 ≤ messageGas (env.evm header msg) env.config msg :=
    txGas_le_intrinsicGas _ _ _
  have henough := hcovers.intrinsic_le
  unfold gasUsed
  omega

theorem filed_beginBlock (node : Node) (coinbase : Address) (time : ℕ) :
    Filed env node.work.totalUsedGas (node.beginBlock env coinbase time).work where
  hashes := rfl
  total := (add_zero _).symm
  positive _ hreceipt := absurd hreceipt List.not_mem_nil
  le_total _ hreceipt := absurd hreceipt List.not_mem_nil
  increasing := List.Pairwise.nil
  last _ hreceipt := (by cases hreceipt)
  logs _ := rfl

/-- An executed transaction adds its receipt, with the total that includes its gas. -/
theorem Filed.append (hfiled : Filed env start w) {gas : ℤ} (hgas : 0 < gas) {receipt : Receipt}
    (hhash : receipt.txHash = env.recovery.txHash tx) (hused : receipt.gasUsed = gas)
    (hcumulative : receipt.cumulativeGasUsed = w.totalUsedGas + gas) {result : ApplyResult}
    (htotal : result.usedGas = w.totalUsedGas + gas) :
    Filed env start (w.append tx (env.recovery.txHash tx) result receipt) where
  hashes := by
    show (w.receipts ++ [receipt]).map Receipt.txHash = (w.transactions ++ [tx]).map _
    rw [List.map_append, List.map_append, hfiled.hashes, List.map_singleton, List.map_singleton,
      hhash]
  total := by
    show result.usedGas = start + ((w.receipts ++ [receipt]).map Receipt.gasUsed).sum
    rw [List.map_append, List.sum_append, List.map_singleton, List.sum_singleton, htotal,
      hfiled.total, hused, add_assoc]
  positive := by
    show ∀ other ∈ w.receipts ++ [receipt], 0 < other.gasUsed
    rw [List.forall_mem_append]
    exact ⟨hfiled.positive, by simp [hused, hgas]⟩
  le_total := by
    show ∀ other ∈ w.receipts ++ [receipt], other.cumulativeGasUsed ≤ result.usedGas
    rw [List.forall_mem_append]
    constructor
    · intro earlier hearlier
      have hle := hfiled.le_total earlier hearlier
      omega
    · simp [hcumulative, htotal]
  increasing := by
    apply List.pairwise_append.mpr
    refine ⟨hfiled.increasing, List.pairwise_singleton _ _, ?_⟩
    intro earlier hearlier later hlater
    have hle := hfiled.le_total earlier hearlier
    rw [List.mem_singleton.mp hlater, hcumulative]
    omega
  last := by
    intro last hlast
    rw [show (w.append tx _ result receipt).receipts = w.receipts ++ [receipt] from rfl,
      List.getLast?_concat, Option.mem_some_iff] at hlast
    rw [← hlast, hcumulative]
    exact htotal.symm
  logs hempty := absurd hempty (List.append_ne_nil_of_right_ne_nil _ (List.cons_ne_nil _ _))

theorem filed_deliverTx (hgas : KeepsGas env.vm) {written : Bool} {error : Option DeliverError}
    (hfiled : Filed env start w) (hdelivered : deliverTx env written w tx = .ok (after, error)) :
    Filed env start after := by
  have hdelivery := deliverTx_delivery env written w tx
  rw [hdelivered] at hdelivery
  cases hdelivery with
  | invisible | underpaid =>
    exact ⟨hfiled.hashes, hfiled.total, hfiled.positive, hfiled.le_total, hfiled.increasing,
      hfiled.last, hfiled.logs⟩
  | executed msg hmsg hcovers receipt gas houtcome =>
    have hcovers' : Covers env (w.prepared env tx) w.header msg :=
      ⟨paysGas_prepared.mpr hcovers.paysGas, hcovers.intrinsic_le, hcovers.cost_le⟩
    cases houtcome
    exact hfiled.append (gasUsed_pos hgas hcovers') rfl rfl rfl rfl

theorem filed_deliverAll (hgas : KeepsGas env.vm) {deliveries : List (Transaction × Bool)}
    {node last : Node} (hfiled : Filed env start node.work)
    (hdelivered : (deliverAll env node deliveries).2 = some last) : Filed env start last.work := by
  induction deliveries generalizing node with
  | nil =>
    cases hdelivered
    exact hfiled
  | cons delivery rest ih =>
    unfold deliverAll at hdelivered
    cases hnode : node.deliver env delivery.2 delivery.1 with
    | error panic =>
      rw [hnode] at hdelivered
      cases hdelivered
    | ok result =>
      rw [hnode] at hdelivered
      exact ih (filed_deliverTx hgas hfiled (deliver_eq hnode).1) hdelivered

/-! ## The sealed block -/

/-- The gas of the header is that of the receipts. -/
def GasAgrees (sealedWork : Sealed) : Prop :=
  sealedWork.block.header.gasUsed = some (sealedWork.receipts.map Receipt.gasUsed).sum

/-- The i-th receipt is that of the i-th transaction, and the running totals grow. -/
def ReceiptsOrdered (env : Environment) (sealedWork : Sealed) : Prop :=
  sealedWork.receipts.map Receipt.txHash =
      sealedWork.block.transactions.map env.recovery.txHash ∧
    sealedWork.receipts.Pairwise fun earlier later ↦
      earlier.cumulativeGasUsed < later.cumulativeGasUsed

/-- The last running total is the gas of all receipts. -/
def LastIsTotal (sealedWork : Sealed) : Prop :=
  ∀ last ∈ sealedWork.receipts.getLast?,
    last.cumulativeGasUsed = (sealedWork.receipts.map Receipt.gasUsed).sum

/-- The logs carry the hash of the block. -/
def LogsAgree (hashing : Hashing) (sealedWork : Sealed) : Prop :=
  ∀ log ∈ sealedWork.logs, log.blockHash = sealedWork.block.hash hashing

theorem Filed.receipts_eq_nil_iff (hfiled : Filed env start w) :
    w.receipts = [] ↔ w.transactions = [] := by
  rw [← List.map_eq_nil_iff (f := Receipt.txHash), hfiled.hashes, List.map_eq_nil_iff]

theorem Filed.gasAgrees_iff (hfiled : Filed env start w) (hashing : Hashing) :
    GasAgrees (sealWork env hashing w) ↔ w.transactions = [] := by
  rw [← hfiled.receipts_eq_nil_iff]
  have hheader : GasAgrees (sealWork env hashing w) ↔
      0 = (w.receipts.map Receipt.gasUsed).sum := by
    unfold GasAgrees
    exact Option.some_inj
  rw [hheader]
  constructor
  · intro hzero
    by_contra hsome
    have hpositive : 0 < (w.receipts.map Receipt.gasUsed).sum := by
      apply List.sum_pos
      · intro gas hgas
        obtain ⟨receipt, hreceipt, rfl⟩ := List.mem_map.mp hgas
        exact hfiled.positive receipt hreceipt
      · exact fun hempty ↦ hsome (List.map_eq_nil_iff.mp hempty)
    omega
  · intro hempty
    rw [hempty]
    rfl

theorem Filed.lastIsTotal_iff (hfiled : Filed env start w) (hashing : Hashing) :
    LastIsTotal (sealWork env hashing w) ↔ w.transactions = [] ∨ start = 0 := by
  rw [← hfiled.receipts_eq_nil_iff]
  have htotal := hfiled.total
  by_cases hempty : w.receipts = []
  · simp [LastIsTotal, sealWork, hempty]
  · have hlast : LastIsTotal (sealWork env hashing w) ↔
        w.totalUsedGas = (w.receipts.map Receipt.gasUsed).sum := by
      have hsome := List.getLast?_eq_getLast_of_ne_nil hempty
      rw [← hfiled.last _ hsome]
      unfold LastIsTotal
      rw [show (sealWork env hashing w).receipts = w.receipts from rfl, hsome]
      simp
    rw [hlast]
    simp only [hempty, false_or]
    omega

theorem logsAgree_iff (env : Environment) (hashing : Hashing) (w : Work) :
    LogsAgree hashing (sealWork env hashing w) ↔
      w.allLogs = [] ∨ stateRoot env w = (sealWork env hashing w).block.hash hashing := by
  have hstamped : LogsAgree hashing (sealWork env hashing w) ↔
      ∀ log ∈ w.allLogs, stateRoot env w = (sealWork env hashing w).block.hash hashing :=
    List.forall_mem_map
  rw [hstamped]
  cases w.allLogs with
  | nil => simp
  | cons log logs =>
    simp only [List.cons_ne_nil, false_or]
    exact ⟨fun hall ↦ hall log List.mem_cons_self, fun hroot _ _ ↦ hroot⟩

/-- The block that is sealed after any deliveries on any node. Its receipts are always in order. Its
header shows the gas of the receipts only when no transaction is in the block; the last running
total is that gas when the previous block was written, and the logs carry the hash of the block when
there are none or the root of the state is that hash. All of it holds only without a transaction. -/
theorem sealWork_consistent_iff (hashing : Hashing) (hgas : KeepsGas env.vm) (node : Node)
    (input : BlockInput) {last : Node}
    (hdelivered : (deliverAll env (node.beginBlock env input.coinbase input.time)
      input.deliveries).2 = some last) :
    ReceiptsOrdered env (sealWork env hashing last.work) ∧
    (GasAgrees (sealWork env hashing last.work) ↔ last.work.transactions = []) ∧
    (LastIsTotal (sealWork env hashing last.work) ↔
      last.work.transactions = [] ∨ node.work.totalUsedGas = 0) ∧
    (LogsAgree hashing (sealWork env hashing last.work) ↔
      last.work.allLogs = [] ∨
        stateRoot env last.work = (sealWork env hashing last.work).block.hash hashing) ∧
    (GasAgrees (sealWork env hashing last.work) ∧ LastIsTotal (sealWork env hashing last.work) ∧
        LogsAgree hashing (sealWork env hashing last.work) ↔ last.work.transactions = []) := by
  have hfiled := filed_deliverAll hgas (filed_beginBlock node input.coinbase input.time) hdelivered
  have hgasAgrees := hfiled.gasAgrees_iff hashing
  have htotal := hfiled.lastIsTotal_iff hashing
  have hlogs := logsAgree_iff env hashing last.work
  refine ⟨⟨hfiled.hashes, hfiled.increasing⟩, hgasAgrees, htotal, hlogs, ?_, ?_⟩
  · exact fun hall ↦ hgasAgrees.mp hall.1
  · exact fun hempty ↦
      ⟨hgasAgrees.mpr hempty, htotal.mpr (.inl hempty), hlogs.mpr (.inl (hfiled.logs hempty))⟩

/-! ## Two blocks -/

/-- Hashes that tell a block from a state. -/
def sampleHashing : Hashing where
  blockHash _ := 1
  headerHash _ := 2
  emptyRootHash := 3
  deriveTransactions _ := 4
  deriveReceipts _ := 5

theorem keepsGas_stopInterpreter (signer : Address) :
    KeepsGas (sampleEnvironment signer stopInterpreter).vm := fun _ _ _ _ ↦ le_rfl

/-- An interpreter whose runs write one log. -/
def logInterpreter (_ : Context) (state : StateDB) (contract : Contract) (_ : Bytes) : RunResult :=
  ⟨{ state with
      logs := Function.update state.logs state.thash
        (state.logs state.thash ++ [⟨contract.self, [], []⟩]) }, [], contract.gas, none⟩

/-- A chain on which account 7 owns 100000 units and account 8 is the contract
`PUSH1 0; PUSH1 0; LOG0`. -/
def loggingBlock : Block := ⟨⟨0, 0, 0, 0, 131072⟩, 131072, fun observed ↦
  if observed = 7 then some ⟨0, 100000, [], fun _ ↦ 0⟩
  else if observed = 8 then some ⟨1, 0, [96, 0, 96, 0, 160], fun _ ↦ 0⟩
  else none⟩

def loggingNode : Node := ⟨loggingBlock, resetWork loggingBlock, rfl⟩

/-- Two transfers of account 7. -/
def twoTransfers : List (Transaction × Bool) :=
  [(sampleTransfer 8 1 30000 1, true), (⟨1, 1, 30000, some 8, 1, [], 27, 1, 1⟩, true)]

/-- A block without transactions is in order in every respect, and one with two of them in the order
of its receipts. -/
theorem sealWork_consistent_blocks :
    (∃ last, (deliverAll (sampleEnvironment 7 stopInterpreter)
        (sampleNode.beginBlock (sampleEnvironment 7 stopInterpreter) 9 10) []).2 = some last ∧
      ReceiptsOrdered (sampleEnvironment 7 stopInterpreter)
        (sealWork (sampleEnvironment 7 stopInterpreter) sampleHashing last.work) ∧
      GasAgrees (sealWork (sampleEnvironment 7 stopInterpreter) sampleHashing last.work) ∧
      LastIsTotal (sealWork (sampleEnvironment 7 stopInterpreter) sampleHashing last.work) ∧
      LogsAgree sampleHashing
        (sealWork (sampleEnvironment 7 stopInterpreter) sampleHashing last.work)) ∧
    ∃ last, (deliverAll (sampleEnvironment 7 stopInterpreter)
        (loggingNode.beginBlock (sampleEnvironment 7 stopInterpreter) 9 10) twoTransfers).2 =
          some last ∧
      last.work.receipts.map Receipt.cumulativeGasUsed = [30000, 60000] ∧
      ReceiptsOrdered (sampleEnvironment 7 stopInterpreter)
        (sealWork (sampleEnvironment 7 stopInterpreter) sampleHashing last.work) ∧
      LastIsTotal (sealWork (sampleEnvironment 7 stopInterpreter) sampleHashing last.work) := by
  constructor
  · obtain ⟨hordered, -, -, -, hall⟩ := sealWork_consistent_iff sampleHashing
      (keepsGas_stopInterpreter 7) sampleNode ⟨9, 10, [], .stored false⟩ rfl
    exact ⟨_, rfl, hordered, hall.mpr rfl⟩
  · obtain ⟨hordered, -, htotal, -⟩ := sealWork_consistent_iff sampleHashing
      (keepsGas_stopInterpreter 7) loggingNode ⟨9, 10, twoTransfers, .stored false⟩ rfl
    exact ⟨_, rfl, rfl, hordered, htotal.mpr (.inr rfl)⟩

/-- One call that writes a log. The receipt counts 30000 units of gas, the header none, and the log
is stamped with the root of the state. -/
theorem sealWork_inconsistent : KeepsGas (sampleEnvironment 7 logInterpreter).vm ∧ ∃ last,
    (deliverAll (sampleEnvironment 7 logInterpreter)
      (loggingNode.beginBlock (sampleEnvironment 7 logInterpreter) 9 10)
      [(sampleTransfer 8 1 30000 0, true)]).2 = some last ∧
    (sealWork (sampleEnvironment 7 logInterpreter) sampleHashing last.work).block.header.gasUsed =
      some 0 ∧
    last.work.receipts.map Receipt.gasUsed = [30000] ∧
    (sealWork (sampleEnvironment 7 logInterpreter) sampleHashing last.work).logs.map
      StampedLog.blockHash = [0] ∧
    (sealWork (sampleEnvironment 7 logInterpreter) sampleHashing last.work).block.hash
      sampleHashing = 2 :=
  ⟨fun _ _ _ _ ↦ le_rfl, _, rfl, rfl, rfl, rfl, rfl⟩

end LkChain.Ethermint.Sealing
