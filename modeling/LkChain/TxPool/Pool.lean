import LkChain.Ethereum.ManagedState
import LkChain.Ethermint.Admission
import LkChain.TxPool.Lists
import Mathlib.Data.List.AList
import Mathlib.Data.List.Sort

/-!
# The transaction pool

`core/tx_pool.go`: the pending and queued transactions of each account, the index of all of them and
the operations of the pool, each under its lock. A transaction stands for its hash. The journal, the
event feed and the metrics do not feed back into the pool and are left out; the walk over the two
chains with which `reset` finds the transactions to reinject enters as its result.

Go traverses its maps in an arbitrary order, which each call gets as a parameter together with the
time and the time of the latest block.
-/

namespace LkChain.TxPool

open Foundation Ethereum State Transactions Calls
open Ethermint.Admission (illegalGasLimitOrGasPrice maxTransactionSize)

/-- `TxPoolConfig`, as far as the pool reads it. -/
structure Config where
  priceLimit : ℕ
  priceBump : ℕ
  accountSlots : ℕ
  globalSlots : ℕ
  accountQueue : ℕ
  globalQueue : ℕ
  lifetime : ℕ
  feeUpdateTime : ℕ

/-- The fixed surroundings of a pool: its configuration, its signer, the encoded size of a
transaction and the priority queue behind the price heap. -/
structure Setup where
  config : Config
  signer : Signer
  recovery : Recovery
  vm : VM
  size : Transaction → ℕ
  heap : Heap

/-- What a call finds: the time, the time of the latest block, and the orders in which its
traversals of the pool's maps run. -/
structure Call where
  now : ℕ
  lastBlockTime : ℕ
  order : ℕ → List Address → List Address
  order_perm : ∀ traversal addresses, (order traversal addresses).Perm addresses

/-- The same call with its further traversals. -/
def Call.later (call : Call) : Call where
  now := call.now
  lastBlockTime := call.lastBlockTime
  order traversal := call.order (traversal + 8)
  order_perm traversal := call.order_perm (traversal + 8)

abbrev Lists (strict : Bool) := AList fun _ : Address ↦ TxList strict

structure Pool where
  currentState : StateDB
  pendingState : ManagedState
  currentMaxGas : ℕ
  gasPrice : ℕ
  locals : List Address
  pending : Lists true
  queue : Lists false
  beats : Address → Option ℕ
  all : List Transaction
  priced : PricedList
  homestead : Bool

inductive PoolError where
  | known
  | invalidSender
  | gasLimitOrGasPrice
  | oversizedData
  | underpriced
  | nonceTooLow
  | nonceTooHigh
  | insufficientFunds
  | intrinsicGas
  | replaceUnderpriced
deriving DecidableEq, Repr

namespace Setup

variable (setup : Setup)

def sender (tx : Transaction) : Except SenderError Address := setup.signer.sender setup.recovery tx

/-- The sender where its error is ignored: the zero address then. -/
def account (tx : Transaction) : Address :=
  match setup.sender tx with
  | .ok address => address
  | .error _ => 0

/-- `containsTx` of the local accounts. -/
def containsTx (locals : List Address) (tx : Transaction) : Bool :=
  match setup.sender tx with
  | .ok address => locals.contains address
  | .error _ => false

end Setup

/-- The number of transactions in the lists of a map. -/
def total {strict : Bool} (lists : Lists strict) : ℕ :=
  (lists.entries.map fun entry ↦ entry.2.len).sum

namespace Pool

variable (setup : Setup) (call : Call) (pool : Pool)

/-- The pending list of an account, and a new one if it has none. -/
def pendingOf (addr : Address) : TxList true := (pool.pending.lookup addr).getD (.new true)

@[inherit_doc pendingOf]
def queueOf (addr : Address) : TxList false := (pool.queue.lookup addr).getD (.new false)

/-! ## The index -/

/-- Delete a transaction from the index and report it to the price heap. -/
def forget (tx : Transaction) : Pool :=
  let all := pool.all.filter (· ≠ tx)
  { pool with all := all, priced := pool.priced.removed setup.heap all }

def forgetAll (txs : List Transaction) : Pool := txs.foldl (forget setup) pool

/-- Delete a replaced transaction, if there is one. -/
def forgetOld : Option Transaction → Pool
  | none => pool
  | some old => pool.forget setup old

/-- Enter a transaction into the index and the price heap. -/
def remember (tx : Transaction) : Pool :=
  { pool with all := pool.all.insert tx, priced := pool.priced.put setup.heap tx }

/-- Enter a transaction unless the index has it. -/
def ensure (tx : Transaction) : Pool := if tx ∈ pool.all then pool else pool.remember setup tx

/-! ## Validation -/

/-- `validateTx`. Amounts of decoded transactions are not negative. -/
def validateTx (tx : Transaction) (isLocal : Bool) : Except PoolError Unit :=
  match setup.sender tx with
  | .error _ => .error .invalidSender
  | .ok sender =>
    let hashcode := match tx.recipient with
      | none => false
      | some recipient => 0 < pool.currentState.getCodeSize recipient
    let feeUpdateTime := setup.config.feeUpdateTime
    if illegalGasLimitOrGasPrice setup.vm tx hashcode
        (feeUpdateTime ≠ 0 && feeUpdateTime ≤ call.lastBlockTime) then .error .gasLimitOrGasPrice
    else if maxTransactionSize < setup.size tx then .error .oversizedData
    else if !(isLocal || pool.locals.contains sender) && tx.price < pool.gasPrice then
      .error .underpriced
    else if tx.accountNonce < pool.pendingState.getNonce sender then .error .nonceTooLow
    else if pool.pendingState.getNonce sender < tx.accountNonce then .error .nonceTooHigh
    else if pool.pendingState.getBalance sender < tx.cost then .error .insufficientFunds
    else if tx.gasLimit < intrinsicGas tx.payload tx.recipient.isNone pool.homestead then
      .error .intrinsicGas
    else .ok ()

/-! ## Moving transactions between the lists -/

/-- `enqueueTx`, and whether a transaction was replaced. A new list refuses nothing. -/
def enqueueTx (tx : Transaction) : Pool × Except PoolError Bool :=
  let addr := setup.account tx
  match (pool.queueOf addr).add tx setup.config.priceBump with
  | none => (pool, .error .replaceUnderpriced)
  | some (list, old) =>
    let queued := { pool with queue := pool.queue.insert addr list }
    ((queued.forgetOld setup old).remember setup tx, .ok old.isSome)

/-- Queue several transactions, whatever `enqueueTx` answers. -/
def enqueueAll (txs : List Transaction) : Pool :=
  txs.foldl (fun pool tx ↦ (pool.enqueueTx setup tx).1) pool

def promoteTx (addr : Address) (tx : Transaction) : Pool :=
  match (pool.pendingOf addr).add tx setup.config.priceBump with
  | none => pool.forget setup tx
  | some (list, old) =>
    let promoted := { pool with pending := pool.pending.insert addr list }
    let indexed := (promoted.forgetOld setup old).ensure setup tx
    let lastbalance : ℤ := indexed.pendingState.getBalance addr - tx.cost
    { indexed with
      beats := Function.update indexed.beats addr (some call.now)
      pendingState := indexed.pendingState.setNonceAndBalance addr
        ((tx.accountNonce + 1) % 2 ^ 64) lastbalance }

def promoteAll (addr : Address) (txs : List Transaction) : Pool :=
  txs.foldl (fun pool tx ↦ pool.promoteTx setup call addr tx) pool

/-- Write a pending list back, or delete it with its heartbeat if it is empty. -/
def setPending (addr : Address) (list : TxList true) : Pool :=
  if list.empty then
    { pool with
      pending := pool.pending.erase addr
      beats := Function.update pool.beats addr none }
  else { pool with pending := pool.pending.insert addr list }

/-- Write a queued list back, or delete it if it is empty. -/
def setQueue (addr : Address) (list : TxList false) : Pool :=
  if list.empty then { pool with queue := pool.queue.erase addr }
  else { pool with queue := pool.queue.insert addr list }

/-- Lower the pending nonce of an account to a nonce. The balance stays. -/
def lowerNonce (addr : Address) (nonce : ℕ) : Pool :=
  if nonce < pool.pendingState.getNonce addr then
    { pool with pendingState := pool.pendingState.setNonce addr nonce }
  else pool

/-- Queue the transactions behind a removed one, unless none is left before it. -/
def postpone (list : TxList true) (invalids : List Transaction) : Pool :=
  if list.empty then pool else pool.enqueueAll setup invalids

def removeTx (tx : Transaction) : Pool :=
  if tx ∉ pool.all then pool
  else
    let addr := setup.account tx
    let forgotten := pool.forget setup tx
    match (pool.pendingOf addr).remove tx with
    | some (list, invalids) =>
      ((forgotten.setPending addr list).postpone setup list invalids).lowerNonce addr
        tx.accountNonce
    | none =>
      match (pool.queueOf addr).remove tx with
      | some (list, _) => forgotten.setQueue addr list
      | none => forgotten

def removeAll (txs : List Transaction) : Pool := txs.foldl (removeTx setup) pool

/-! ## `promoteExecutables` -/

/-- Drop the queued transactions of an account that are too old or too costly. -/
def dropInvalid (addr : Address) (list : TxList false) : Pool × TxList false :=
  let (list, old) := list.forward (pool.currentState.getNonce addr)
  let pool := pool.forgetAll setup old
  let (list, drops, _) := list.filter (pool.currentState.getBalance addr)
  (pool.forgetAll setup drops, list)

/-- Promote the executable transactions of an account. -/
def promoteReady (addr : Address) (list : TxList false) : Pool × TxList false :=
  let (list, ready) := list.ready (pool.pendingState.getNonce addr)
  (pool.promoteAll setup call addr ready, list)

/-- Drop the queued transactions of an account over the allowed limit. -/
def dropOver (addr : Address) (list : TxList false) : Pool × TxList false :=
  if pool.locals.contains addr then (pool, list)
  else
    let (list, exceeding) := list.cap setup.config.accountQueue
    (pool.forgetAll setup exceeding, list)

/-- The turn of the first loop for one account. -/
def promoteAccount (addr : Address) : Pool :=
  match pool.queue.lookup addr with
  | none => pool
  | some list =>
    let (pool, list) := pool.dropInvalid setup addr list
    let (pool, list) := pool.promoteReady setup call addr list
    let (pool, list) := pool.dropOver setup addr list
    pool.setQueue addr list

/-- Drop the last pending transaction of an account. -/
def dropLast (addr : Address) : Pool :=
  let list := pool.pendingOf addr
  let (kept, dropped) := list.cap (list.len - 1)
  dropped.foldl (fun pool tx ↦ (pool.forget setup tx).lowerNonce addr tx.accountNonce)
    { pool with pending := pool.pending.insert addr kept }

def dropLasts (addrs : List Address) : Pool := addrs.foldl (dropLast setup) pool

/-- Drop one transaction of each offender, as long as there are too many pending ones and the list
of an account is above the threshold. Every turn counts down the pending transactions, so that their
number is fuel enough. -/
def reduce (offenders : List Address) (account : Address) (threshold : ℕ) :
    ℕ → ℕ → Pool → Pool × ℕ
  | 0, pending, pool => (pool, pending)
  | fuel + 1, pending, pool =>
    if setup.config.globalSlots < pending ∧ threshold < (pool.pendingOf account).len then
      reduce offenders account threshold fuel (pending - offenders.length)
        (pool.dropLasts setup offenders)
    else (pool, pending)

/-- Take the offenders in turn and bring the lists of those before down to the length of the
next. -/
def equalize : List Address → List Address → ℕ → Pool → Pool × ℕ × List Address
  | [], offenders, pending, pool => (pool, pending, offenders)
  | offender :: spammers, offenders, pending, pool =>
    if setup.config.globalSlots < pending then
      match offenders.getLast? with
      | none => equalize spammers [offender] pending pool
      | some last =>
        let (pool, pending) :=
          reduce setup offenders last (pool.pendingOf offender).len pending pending pool
        equalize spammers (offenders ++ [offender]) pending pool
    else (pool, pending, offenders)

/-- The accounts above their slots that are not local, the longest list first. -/
def spammers : List Address :=
  ((call.order 1 pool.pending.keys).filter fun addr ↦
      !pool.locals.contains addr && setup.config.accountSlots <
        (pool.pendingOf addr).len).insertionSort
    fun a b ↦ (pool.pendingOf b).len ≤ (pool.pendingOf a).len

/-- Drop pending transactions of the largest transactors while there are too many. -/
def capPending : Pool :=
  let pending := total pool.pending
  if setup.config.globalSlots < pending then
    let (pool, pending, offenders) := equalize setup (pool.spammers setup call) [] pending pool
    match offenders.getLast? with
    | none => pool
    | some last => (reduce setup offenders last setup.config.accountSlots pending pending pool).1
  else pool

/-- Drop queued transactions of one account after the other. -/
def dropQueued : List Address → ℕ → Pool → Pool
  | [], _, pool => pool
  | addr :: addresses, drop, pool =>
    if drop = 0 then pool
    else
      let list := pool.queueOf addr
      if list.len ≤ drop then
        dropQueued addresses (drop - list.len) (pool.removeAll setup list.txs)
      else dropQueued addresses 0 (pool.removeAll setup (list.txs.reverse.take drop))

/-- The accounts with queued transactions that are not local, the latest heartbeat first. -/
def heartbeats : List Address :=
  (((call.order 2 pool.queue.keys).filter fun addr ↦ !pool.locals.contains addr).insertionSort
    fun a b ↦ (pool.beats a).getD 0 ≤ (pool.beats b).getD 0).reverse

/-- Drop queued transactions while there are too many. -/
def capQueue : Pool :=
  let queued := total pool.queue
  if setup.config.globalQueue < queued then
    dropQueued setup (pool.heartbeats call) (queued - setup.config.globalQueue) pool
  else pool

/-- The accounts that `promoteExecutables` looks at: all with a queue if it is given none. -/
def promotable : Option (List Address) → List Address
  | some accounts => accounts
  | none => call.order 0 pool.queue.keys

def promoteAccounts (accounts : List Address) : Pool :=
  accounts.foldl (promoteAccount setup call) pool

def promoteExecutables (accounts : Option (List Address)) : Pool :=
  ((pool.promoteAccounts setup call (pool.promotable call accounts)).capPending setup call).capQueue
    setup call

/-! ## Adding transactions -/

/-- `pool.locals.add`, for a local transaction. -/
def markLocal (addr : Address) (isLocal : Bool) : Pool :=
  if isLocal then { pool with locals := pool.locals.insert addr } else pool

/-- The second half of `add`: replace a pending transaction or enter the queue. -/
def place (tx : Transaction) (isLocal : Bool) : Pool × Except PoolError Bool :=
  let addr := setup.account tx
  let list := pool.pendingOf addr
  if list.overlaps tx then
    match list.add tx setup.config.priceBump with
    | none => (pool, .error .replaceUnderpriced)
    | some (list, old) =>
      let replaced := { pool with pending := pool.pending.insert addr list }
      ((replaced.forgetOld setup old).remember setup tx, .ok old.isSome)
  else
    match pool.enqueueTx setup tx with
    | (pool, .error error) => (pool, .error error)
    | (pool, .ok replace) => (pool.markLocal addr isLocal, .ok replace)

/-- Whether the pool has all the transactions that it may. -/
def isFull : Bool := setup.config.globalSlots + setup.config.globalQueue ≤ pool.all.length

/-- The answer of the price heap for a full pool: whether the transaction is too cheap. -/
def underpriced (tx : Transaction) : Pool × Bool :=
  let (priced, under) :=
    pool.priced.underpriced setup.heap pool.all (setup.containsTx pool.locals) tx
  ({ pool with priced := priced }, under)

/-- The transactions that a full pool gives up for a new one. -/
def discard : Pool × List Transaction :=
  let count :=
    (pool.all.length : ℤ) - ((setup.config.globalSlots + setup.config.globalQueue : ℕ) - 1)
  let (priced, drop) := pool.priced.discard setup.heap pool.all (setup.containsTx pool.locals) count
  ({ pool with priced := priced }, drop)

/-- A full pool gives up the transactions that the price heap names. -/
def makeRoom (tx : Transaction) : Pool :=
  let (discarded, drop) := (pool.underpriced setup tx).1.discard setup
  discarded.removeAll setup drop

/-- `add`: the pool, and whether a transaction was replaced. -/
def add (tx : Transaction) (isLocal : Bool) : Pool × Except PoolError Bool :=
  if tx ∈ pool.all then (pool, .error .known)
  else
    match pool.validateTx setup call tx isLocal with
    | .error error => (pool, .error error)
    | .ok () =>
      if pool.isFull setup then
        let (checked, under) := pool.underpriced setup tx
        if under then (checked, .error .underpriced)
        else (pool.makeRoom setup tx).place setup tx isLocal
      else pool.place setup tx isLocal

def addTx (tx : Transaction) (isLocal : Bool) : Pool × Except PoolError Unit :=
  match pool.add setup call tx isLocal with
  | (pool, .error error) => (pool, .error error)
  | (pool, .ok replace) =>
    if replace then (pool, .ok ())
    else (pool.promoteExecutables setup call (some [setup.account tx]), .ok ())

/-- The first loop of `addTxsLocked`: the pool, the answers and the accounts to look at again. -/
def addAll (isLocal : Bool) :
    List Transaction → Pool → Pool × List (Except PoolError Unit) × List Address
  | [], pool => (pool, [], [])
  | tx :: txs, pool =>
    match pool.add setup call tx isLocal with
    | (pool, .error error) =>
      let (pool, errs, dirty) := addAll isLocal txs pool
      (pool, .error error :: errs, dirty)
    | (pool, .ok replace) =>
      let (pool, errs, dirty) := addAll isLocal txs pool
      (pool, .ok () :: errs, if replace then dirty else dirty.insert (setup.account tx))

/-- `addTxsLocked`. -/
def addTxs (txs : List Transaction) (isLocal : Bool) : Pool × List (Except PoolError Unit) :=
  let (pool, errs, dirty) := addAll setup call isLocal txs pool
  if dirty.isEmpty then (pool, errs)
  else (pool.promoteExecutables setup call (some (call.order 3 dirty)), errs)

/-! ## `reset` -/

/-- The turn of `demoteUnexecutables` for one account. -/
def demoteAccount (addr : Address) : Pool :=
  let (list, dropped, demoted) := (pool.pendingOf addr).demotion (pool.currentState.getNonce addr)
    (pool.currentState.getBalance addr)
  ((pool.forgetAll setup dropped).enqueueAll setup demoted).setPending addr list

def demoteUnexecutables : Pool :=
  (call.order 4 pool.pending.keys).foldl (demoteAccount setup) pool

/-- The nonce and the balance after the pending transactions of an account. -/
def latest (curnonce : ℕ) (balance : ℤ) (txs : List Transaction) : ℕ × ℤ :=
  txs.foldl
    (fun last tx ↦
      if curnonce ≤ tx.accountNonce then (tx.accountNonce, last.2 - tx.cost) else last)
    ((curnonce + (2 ^ 64 - 1)) % 2 ^ 64, balance)

/-- The turn of the loop of `reset` that brings the pending state of an account up to date. -/
def updateAccount (addr : Address) : Pool :=
  let (statedb, object) := pool.currentState.getOrNewStateObject addr
  let (lastnonce, lastbalance) := latest object.nonce object.balance (pool.pendingOf addr).txs
  { pool with
    currentState := statedb
    pendingState :=
      pool.pendingState.setNonceAndBalance addr ((lastnonce + 1) % 2 ^ 64) lastbalance }

def updateAccounts : Pool := (call.order 5 pool.pending.keys).foldl updateAccount pool

/-- The pool on a new head, before its transactions are looked at. -/
def rebase (statedb : StateDB) (gasLimit : ℕ) : Pool :=
  { pool with
    currentState := statedb
    pendingState := manageState statedb
    currentMaxGas := gasLimit }

/-- `reset` from the reinjected transactions on. If the state of the new head is missing the pool
stays as it is. -/
def reset (reinject : List Transaction) (statedb : Option StateDB) (gasLimit : ℕ) : Pool :=
  match statedb with
  | none => pool
  | some statedb =>
    let pool := ((pool.rebase statedb gasLimit).addTxs setup call reinject false).1
    let pool := (pool.demoteUnexecutables setup call).updateAccounts call
    pool.promoteExecutables setup call.later none

/-! ## Further operations -/

/-- The pool with a new gas price, and the transactions that are too cheap then. -/
def reprice (price : ℕ) : Pool × List Transaction :=
  let (priced, drop) := pool.priced.cap setup.heap pool.all (setup.containsTx pool.locals) price
  ({ pool with gasPrice := price, priced := priced }, drop)

def setGasPrice (price : ℕ) : Pool :=
  let (pool, drop) := pool.reprice setup price
  pool.removeAll setup drop

/-- The eviction tick of `loop`: accounts that are not local lose their queue after its lifetime. -/
def evictAccount (addr : Address) : Pool :=
  if !pool.locals.contains addr && setup.config.lifetime < call.now - (pool.beats addr).getD 0 then
    pool.removeAll setup (pool.queueOf addr).txs
  else pool

def evict : Pool := (call.order 6 pool.queue.keys).foldl (evictAccount setup call) pool

end Pool

/-! ## Runs -/

/-- The operations of the pool. The walk of `reset` over the chains gives the transactions to
reinject. The last two belong to `loop`: the eviction tick, and a head from the Homestead fork
on. -/
inductive Op where
  | addTx (tx : Transaction) (isLocal : Bool)
  | addTxs (txs : List Transaction) (isLocal : Bool)
  | removeTx (tx : Transaction)
  | setGasPrice (price : ℕ)
  | promoteExecutables (accounts : Option (List Address))
  | reset (reinject : List Transaction) (statedb : Option StateDB) (gasLimit : ℕ)
  | evict
  | homestead

structure Event where
  call : Call
  op : Op

def step (setup : Setup) (pool : Pool) (event : Event) : Pool :=
  match event.op with
  | .addTx tx isLocal => (pool.addTx setup event.call tx isLocal).1
  | .addTxs txs isLocal => (pool.addTxs setup event.call txs isLocal).1
  | .removeTx tx => pool.removeTx setup tx
  | .setGasPrice price => pool.setGasPrice setup price
  | .promoteExecutables accounts => pool.promoteExecutables setup event.call accounts
  | .reset reinject statedb gasLimit => pool.reset setup event.call reinject statedb gasLimit
  | .evict => pool.evict setup event.call
  | .homestead => { pool with homestead := true }

/-- `NewTxPool` on the state of a head. -/
def newTxPool (setup : Setup) (statedb : StateDB) (gasLimit : ℕ) : Pool where
  currentState := statedb
  pendingState := manageState statedb
  currentMaxGas := gasLimit
  gasPrice := setup.config.priceLimit
  locals := []
  pending := ∅
  queue := ∅
  beats _ := none
  all := []
  priced := .new
  homestead := false

/-- The pool after a sequence of operations. -/
def run (setup : Setup) (pool : Pool) (events : List Event) : Pool := events.foldl (step setup) pool

/-! ## A sample pool -/

/-- A heap that sorts its transactions when one is taken. -/
def sampleHeap : Heap where
  init items := items
  push tx items := tx :: items
  pop items :=
    match items.insertionSort (fun a b ↦ a.price ≤ b.price) with
    | [] => none
    | tx :: rest => some (tx, rest)
  init_perm _ := .refl _
  push_perm _ _ := .refl _
  pop_eq_none items hpop := by
    have hperm := List.perm_insertionSort (fun a b ↦ a.price ≤ b.price) items
    split at hpop
    next hsorted => exact List.nil_perm.mp (hsorted ▸ hperm)
    next => cases hpop
  pop_perm items tx rest hpop := by
    have hperm := List.perm_insertionSort (fun a b ↦ a.price ≤ b.price) items
    split at hpop
    next => cases hpop
    next hsorted =>
      cases hpop
      exact (hsorted ▸ hperm).symm
  pop_price items tx rest hpop := by
    have : Std.Total fun a b : Transaction ↦ a.price ≤ b.price := ⟨fun a b ↦ le_total _ _⟩
    have : IsTrans Transaction fun a b ↦ a.price ≤ b.price := ⟨fun a b c ↦ le_trans⟩
    have hsorted := List.pairwise_insertionSort (fun a b : Transaction ↦ a.price ≤ b.price) items
    split at hpop
    next => cases hpop
    next heq =>
      cases hpop
      rw [heq] at hsorted
      exact (List.pairwise_cons.mp hsorted).1

/-- A setup where the first part of a signature is the address of the signer. -/
def sampleSetup (accountSlots : ℕ) : Setup where
  config := ⟨1, 10, accountSlots, 2 * accountSlots, 8, 8, 100, 0⟩
  signer := .eip155 1
  recovery :=
    { (Transition.sampleEnvironment 7 Transition.stopInterpreter).recovery with
      ecrecover := fun _ r _ _ ↦ some (BitVec.ofNat 160 r) }
  vm := (Transition.sampleEnvironment 7 Transition.stopInterpreter).vm
  size _ := 100
  heap := sampleHeap

def sampleTx (sender nonce : ℕ) : Transaction :=
  ⟨nonce, 10 ^ 11, 100000, some 9, 0, [], 27, sender, 1⟩

def sampleCall : Call := ⟨1, 0, fun _ addresses ↦ addresses, fun _ _ ↦ .refl _⟩

/-- A state with two accounts of one nonce and one balance. -/
def sampleState (nonce : ℕ) (balance : ℤ) : StateDB :=
  .new fun observed ↦
    if observed = 7 ∨ observed = 8 then some ⟨nonce, balance, [], fun _ ↦ 0⟩ else none

theorem getNonce_sampleState (nonce : ℕ) (balance : ℤ) (addr : Address) :
    (sampleState nonce balance).getNonce addr = if addr = 7 ∨ addr = 8 then nonce else 0 := by
  unfold sampleState StateDB.getNonce StateDB.view StateDB.new
  dsimp only
  split_ifs <;> rfl

theorem getBalance_sampleState (nonce : ℕ) (balance : ℤ) (addr : Address) :
    (sampleState nonce balance).getBalance addr = if addr = 7 ∨ addr = 8 then balance else 0 := by
  unfold sampleState StateDB.getBalance StateDB.view StateDB.new
  dsimp only
  split_ifs <;> rfl

/-- A pool that has not seen a transaction yet, where an account can pay for ten of them. -/
def samplePool : Pool := newTxPool (sampleSetup 4) (sampleState 0 (10 ^ 17)) 0

end LkChain.TxPool
