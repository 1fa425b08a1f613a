import LkChain.Foundation.Schedules
import LkChain.Tendermint.Types
import Mathlib.Data.List.AList
import Mathlib.Data.List.ReduceOption

/-!
# The block pool

`blockchain/pool.go` and the goroutines that share a `BlockPool`: the `requestRoutine` of every
requester, the `redo` calls that wait for one, `makeRequestersRoutine`, `poolRoutine`, the timers of
the peers, and the p2p layer, which calls `AddBlock`, `SetPeerHeight` and `RemovePeer` at any time.

A step runs from one lock or channel operation to the next. What is done under `pool.mtx` without a
channel operation is one step; only `AddBlock` keeps the lock while it waits, for the receiver of
`gotBlockCh`. The `mtx` of a requester is never kept, so it does not show. The pool stays running.
`timeoutsCh` has room; what is in it is left open, so that `poolRoutine` may stop any peer at any
time.
-/

namespace LkChain.BlockPool

open Foundation Foundation.Stops
open Tendermint.Types (Panic Fallible)

variable {PeerID Block : Type}

/-- The step has to wait. -/
inductive Blocked where
  | blocked
deriving DecidableEq, Repr

/-- A step that has to wait. -/
abbrev blocked {Output : Type} : Fallible Blocked Output := .error (.error .blocked)

def maxTotalRequesters : ℕ := 1000

def maxPendingRequests : ℕ := maxTotalRequesters

def maxPendingRequestsPerPeer : ℤ := 50

/-- The room in `requestsCh`. -/
def defaultChannelCapacity : ℕ := 1000

/-! ## Requesters -/

/-- Where `requestRoutine` stands: before it looks whether it is running, before it picks a peer,
before it writes the peer down, before it sends the request, in the outer and in the inner `select`,
after it has received a redo, or at its end. -/
inductive Routine (PeerID : Type) where
  | checking
  | picking
  | assigning (peerID : PeerID)
  | sending (peerID : PeerID)
  | waiting
  | got
  | resetting
  | returned
deriving DecidableEq

/-- `bpRequester`; `redos` counts the goroutines that wait in `redo`, and `listed` says that the map
of the pool holds the requester under its height. -/
structure Requester (PeerID Block : Type) where
  height : ℤ
  peerID : Option PeerID
  block : Option Block
  running : Bool
  listed : Bool
  routine : Routine PeerID
  redos : ℕ
deriving DecidableEq

/-- `newBPRequester` and its start. -/
def newBPRequester (height : ℤ) : Requester PeerID Block :=
  ⟨height, none, none, true, true, .checking, 0⟩

namespace Requester

variable [DecidableEq PeerID] (requester : Requester PeerID Block)

/-- `setBlock`, before it sends. -/
def setBlock (block : Block) (peerID : PeerID) : Option (Requester PeerID Block) :=
  if requester.block.isSome ∨ requester.peerID ≠ some peerID then none
  else some { requester with block := some block }

def reset : Requester PeerID Block := { requester with peerID := none, block := none }

/-- `Stop`, and the deletion from the map. -/
def pop : Requester PeerID Block := { requester with running := false, listed := false }

/-- A goroutine starts to wait in `redo`. -/
def redo : Requester PeerID Block := { requester with redos := requester.redos + 1 }

/-- The key under which the map holds the requester. -/
def key : Option ℤ := if requester.listed then some requester.height else none

/-- A redo is on its way: sent, or received and not yet carried out. -/
def outstanding : Bool := 0 < requester.redos || requester.routine = .resetting

end Requester

/-- The steps of a `requestRoutine` that nobody else takes part in, except for a waiting `redo`. -/
inductive Action where
  | check
  | assign
  | receiveRedo
  | reset
  | quit
deriving DecidableEq

/-- A step of `requestRoutine`. -/
def Requester.act [DecidableEq PeerID] (requester : Requester PeerID Block) :
    Action → Option (Requester PeerID Block)
  | .check =>
    if requester.routine = .checking then
      some { requester with routine := if requester.running then .picking else .returned }
    else none
  | .assign =>
    match requester.routine with
    | .assigning peerID => some { requester with peerID := some peerID, routine := .sending peerID }
    | _ => none
  | .receiveRedo =>
    if (requester.routine = .waiting ∨ requester.routine = .got) ∧ 0 < requester.redos then
      some { requester with redos := requester.redos - 1, routine := .resetting }
    else none
  | .reset =>
    if requester.routine = .resetting then some { requester.reset with routine := .checking }
    else none
  | .quit =>
    if (requester.routine = .waiting ∨ requester.routine = .got) ∧ !requester.running then
      some { requester with routine := .returned }
    else none

/-! ## Peers -/

/-- `bpPeer`; of the monitor and the timer it is only kept whether they are there. -/
structure Peer where
  height : ℤ
  numPending : ℤ
  recvMonitor : Bool
  timeout : Bool
  didTimeout : Bool
deriving DecidableEq

def newBPPeer (height : ℤ) : Peer := ⟨height, 0, false, false, false⟩

namespace Peer

variable (peer : Peer)

def resetMonitor : Peer := { peer with recvMonitor := true }

def resetTimeout : Peer := { peer with timeout := true }

def incrPending : Peer :=
  let peer := if peer.numPending = 0 then peer.resetMonitor.resetTimeout else peer
  { peer with numPending := peer.numPending + 1 }

def decrPending : Fallible Blocked Peer :=
  let peer := { peer with numPending := peer.numPending - 1 }
  if peer.numPending = 0 then
    if peer.timeout then .ok peer else .error (.panic .nilDereference)
  else if peer.recvMonitor then .ok peer.resetTimeout else .error (.panic .nilDereference)

end Peer

/-! ## What `pool.mtx` protects -/

/-- `BlockPool`. The cells are all requesters that were ever made; the map `requesters` holds the
listed ones. -/
structure Pool (PeerID Block : Type) where
  cells : List (Requester PeerID Block)
  height : ℤ
  numPending : ℤ
  peers : AList fun _ : PeerID ↦ Peer

namespace Pool

variable (pool : Pool PeerID Block)

/-- The keys of the cells in the map. -/
def keys : List (Option ℤ) := pool.cells.map Requester.key

def requestersLen : ℕ := pool.keys.reduceOption.length

/-- The cell that the map holds under a height. -/
def find (height : ℤ) : Option ℕ := pool.keys.findIdx? fun key ↦ key = some height

/-- The requester that the map holds under a height, and its cell. -/
def requesterAt (height : ℤ) : Option (ℕ × Requester PeerID Block) :=
  (pool.find height).bind fun ref ↦ pool.cells[ref]?.map fun requester ↦ (ref, requester)

/-- The pool with another requester in a cell. -/
def setCell (ref : ℕ) (requester : Requester PeerID Block) : Pool PeerID Block :=
  { pool with cells := pool.cells.set ref requester }

/-- The pool after a `requestRoutine` has moved on. -/
def setRoutine (ref : ℕ) (routine : Routine PeerID) : Pool PeerID Block :=
  { pool with cells := pool.cells.modify ref fun requester ↦ { requester with routine := routine } }

def peekTwoBlocks : Option Block × Option Block :=
  ((pool.requesterAt pool.height).bind fun found ↦ found.2.block,
    (pool.requesterAt (pool.height + 1)).bind fun found ↦ found.2.block)

def popRequest : Fallible Blocked (Pool PeerID Block) :=
  match pool.requesterAt pool.height with
  | some (ref, requester) =>
    .ok { pool.setCell ref requester.pop with height := pool.height + 1 }
  | none => .error (.panic (.sanity
      ("Expected requester to pop, got nothing at height " ++ toString pool.height)))

/-- `makeNextRequester`; a requester under the same height would be replaced. -/
def makeNextRequester : Pool PeerID Block :=
  let nextHeight := pool.height + pool.requestersLen
  { pool with
    cells := (pool.cells.map fun requester ↦
      if requester.height = nextHeight then { requester with listed := false } else requester) ++
      [newBPRequester nextHeight]
    numPending := pool.numPending + 1 }

variable [DecidableEq PeerID]

/-- `removePeer`; the peer of a requester that has none is the empty text. -/
def removePeer (peerID : Option PeerID) : Pool PeerID Block where
  cells := pool.cells.map fun requester ↦
    if requester.listed ∧ requester.peerID = peerID then requester.redo else requester
  height := pool.height
  numPending := pool.numPending + pool.cells.countP fun requester ↦
    requester.listed ∧ requester.peerID = peerID ∧ requester.block.isSome
  peers := match peerID with
    | none => pool.peers
    | some peerID => pool.peers.erase peerID

def redoRequest (height : ℤ) : Fallible Blocked (Pool PeerID Block) :=
  match pool.requesterAt height with
  | none => .error (.panic .nilDereference)
  | some (_, requester) =>
    if requester.block.isNone then .error (.panic (.sanity "Expected block to be non-nil"))
    else .ok (pool.removePeer requester.peerID)

def setPeerHeight (peerID : PeerID) (height : ℤ) : Pool PeerID Block :=
  match pool.peers.lookup peerID with
  | some peer => { pool with peers := pool.peers.insert peerID { peer with height := height } }
  | none => { pool with peers := pool.peers.insert peerID (newBPPeer height) }

/-- `onTimeout`, of a peer with a timer. -/
def onTimeout (peerID : PeerID) : Fallible Blocked (Pool PeerID Block) :=
  match pool.peers.lookup peerID with
  | some peer =>
    if peer.timeout then
      .ok { pool with peers := pool.peers.insert peerID { peer with didTimeout := true } }
    else blocked
  | none => blocked

/-- The loop of `pickIncrAvailablePeer` over the peers, in the order of the iteration. -/
def pickIncrAvailablePeer (minHeight : ℤ) :
    List PeerID → Pool PeerID Block → Option PeerID × Pool PeerID Block
  | [], pool => (none, pool)
  | peerID :: rest, pool =>
    match pool.peers.lookup peerID with
    | none => pickIncrAvailablePeer minHeight rest pool
    | some peer =>
      if peer.didTimeout then pickIncrAvailablePeer minHeight rest (pool.removePeer (some peerID))
      else if maxPendingRequestsPerPeer ≤ peer.numPending then
        pickIncrAvailablePeer minHeight rest pool
      else if peer.height < minHeight then pickIncrAvailablePeer minHeight rest pool
      else (some peerID, { pool with peers := pool.peers.insert peerID peer.incrPending })

/-- The loop of `removeTimedoutPeers` over the peers, of which some are slow. A slow peer is marked
and removed in the same round. -/
def removeTimedoutPeers (slow : List PeerID) :
    List PeerID → Pool PeerID Block → Fallible Blocked (Pool PeerID Block)
  | [], pool => .ok pool
  | peerID :: rest, pool =>
    match pool.peers.lookup peerID with
    | none => removeTimedoutPeers slow rest pool
    | some peer =>
      if !peer.didTimeout ∧ 0 < peer.numPending ∧ !peer.recvMonitor then
        .error (.panic .nilDereference)
      else if peer.didTimeout ∨ 0 < peer.numPending ∧ peerID ∈ slow then
        removeTimedoutPeers slow rest (pool.removePeer (some peerID))
      else removeTimedoutPeers slow rest pool

/-- The end of `AddBlock`, after the requester has received. -/
def decrPending (peerID : PeerID) : Fallible Blocked (Pool PeerID Block) :=
  match pool.peers.lookup peerID with
  | none => .ok { pool with numPending := pool.numPending - 1 }
  | some peer => do
    let peer ← peer.decrPending
    return { pool with
      numPending := pool.numPending - 1
      peers := pool.peers.insert peerID peer }

end Pool

/-! ## The goroutines -/

structure BlockRequest (PeerID : Type) where
  height : ℤ
  peerID : PeerID
deriving DecidableEq

/-- An `AddBlock` that has stored a block and waits to send. -/
structure Delivery (PeerID : Type) where
  ref : ℕ
  peerID : PeerID
deriving DecidableEq

/-- Where `makeRequestersRoutine` stands. -/
inductive Spawner where
  | polling
  | making
  | removing
deriving DecidableEq

/-- Where `poolRoutine` stands: in its `select`, in `StopPeerForError`, which calls `RemovePeer`, or
in a round of the sync loop. -/
inductive Sync (PeerID Block : Type) where
  | idle
  | stopping (peerID : PeerID)
  | peeking (round : ℕ)
  | verifying (round : ℕ) (first second : Block)
  | popping (round : ℕ)
  | redoing (height : ℤ)
deriving DecidableEq

/-- The pool, the holder of its lock, the channel of requests, and the two routines. -/
structure System (PeerID Block : Type) where
  pool : Pool PeerID Block
  holder : Option (Delivery PeerID)
  requests : List (BlockRequest PeerID)
  spawner : Spawner
  sync : Sync PeerID Block

/-- The steps of all goroutines. The order of an iteration over the peers is chosen by the runtime,
as is the outcome of a verification by the blocks. -/
inductive Event (PeerID Block : Type) where
  | getStatus
  | makeNextRequester
  | removeTimedoutPeers (slow order : List PeerID)
  | setPeerHeight (peerID : PeerID) (height : ℤ)
  | removePeer (peerID : PeerID)
  | onTimeout (peerID : PeerID)
  | addBlock (peerID : PeerID) (block : Block)
  | gotBlock
  | act (ref : ℕ) (action : Action)
  | pick (ref : ℕ) (order : List PeerID)
  | send (ref : ℕ)
  | takeRequest
  | takeTimeout (peerID : PeerID)
  | stopPeer
  | trySync
  | peek
  | verify (ok : Bool)
  | pop
  | redoRequest
deriving DecidableEq

/-- `NewBlockPool`, started. -/
def newBlockPool (start : ℤ) : System PeerID Block :=
  ⟨⟨[], start, 0, ∅⟩, none, [], .polling, .idle⟩

section Steps

variable [DecidableEq PeerID] (heightOf : Block → ℤ)

/-- An operation of the pool that takes the lock and gives it back. -/
def System.locked (s : System PeerID Block) (result : Fallible Blocked (Pool PeerID Block)) :
    Fallible Blocked (System PeerID Block) :=
  if s.holder.isSome then blocked
  else do
    let pool ← result
    return { s with pool := pool }

/-- One step. -/
def step (s : System PeerID Block) :
    Event PeerID Block → Fallible Blocked (System PeerID Block)
  | .getStatus =>
    match s.holder, s.spawner with
    | none, .polling =>
      if maxPendingRequests ≤ s.pool.numPending ∨ maxTotalRequesters ≤ s.pool.requestersLen then
        .ok { s with spawner := .removing }
      else .ok { s with spawner := .making }
    | _, _ => blocked
  | .makeNextRequester =>
    match s.spawner with
    | .making => { s with spawner := .polling }.locked (.ok s.pool.makeNextRequester)
    | _ => blocked
  | .removeTimedoutPeers slow order =>
    match s.spawner with
    | .removing =>
      if order.Perm s.pool.peers.keys then
        { s with spawner := .polling }.locked (Pool.removeTimedoutPeers slow order s.pool)
      else blocked
    | _ => blocked
  | .setPeerHeight peerID height => s.locked (.ok (s.pool.setPeerHeight peerID height))
  | .removePeer peerID => s.locked (.ok (s.pool.removePeer (some peerID)))
  | .onTimeout peerID => s.locked (s.pool.onTimeout peerID)
  | .addBlock peerID block =>
    match s.holder, s.pool.requesterAt (heightOf block) with
    | some _, _ => blocked
    | none, none => .ok s
    | none, some (ref, requester) =>
      match requester.setBlock block peerID with
      | none => .ok s
      | some requester =>
        .ok { s with pool := s.pool.setCell ref requester, holder := some ⟨ref, peerID⟩ }
  | .gotBlock =>
    match s.holder with
    | none => blocked
    | some delivery =>
      match s.pool.cells[delivery.ref]? with
      | none => blocked
      | some requester =>
        if requester.routine = .waiting then do
          let pool ← (s.pool.setCell delivery.ref { requester with routine := .got }).decrPending
            delivery.peerID
          return { s with pool := pool, holder := none }
        else blocked
  | .act ref action =>
    match s.pool.cells[ref]?.bind fun requester ↦ requester.act action with
    | none => blocked
    | some requester => .ok { s with pool := s.pool.setCell ref requester }
  | .pick ref order =>
    match s.holder, s.pool.cells[ref]? with
    | none, some requester =>
      if requester.routine = .picking ∧ order.Perm s.pool.peers.keys then
        match Pool.pickIncrAvailablePeer requester.height order s.pool with
        | (none, pool) => .ok { s with pool := pool.setRoutine ref .checking }
        | (some peerID, pool) => .ok { s with pool := pool.setRoutine ref (.assigning peerID) }
      else blocked
    | _, _ => blocked
  | .send ref =>
    match s.pool.cells[ref]? with
    | none => blocked
    | some requester =>
      match requester.routine with
      | .sending peerID =>
        if s.requests.length < defaultChannelCapacity then
          .ok { s with
            pool := s.pool.setCell ref { requester with routine := .waiting }
            requests := s.requests ++ [⟨requester.height, peerID⟩] }
        else blocked
      | _ => blocked
  | .takeRequest =>
    match s.sync, s.requests with
    | .idle, _ :: rest => .ok { s with requests := rest }
    | _, _ => blocked
  | .takeTimeout peerID =>
    match s.sync with
    | .idle => .ok { s with sync := .stopping peerID }
    | _ => blocked
  | .stopPeer =>
    match s.sync with
    | .stopping peerID => { s with sync := .idle }.locked (.ok (s.pool.removePeer (some peerID)))
    | _ => blocked
  | .trySync =>
    match s.sync with
    | .idle => .ok { s with sync := .peeking 0 }
    | _ => blocked
  | .peek =>
    match s.holder, s.sync with
    | none, .peeking round =>
      match s.pool.peekTwoBlocks with
      | (some first, some second) => .ok { s with sync := .verifying round first second }
      | _ => .ok { s with sync := .idle }
    | _, _ => blocked
  | .verify ok =>
    match s.sync with
    | .verifying round first _ =>
      .ok { s with sync := if ok then .popping round else .redoing (heightOf first) }
    | _ => blocked
  | .pop =>
    match s.sync with
    | .popping round =>
      { s with sync := if round + 1 < 10 then .peeking (round + 1) else .idle }.locked
        s.pool.popRequest
    | _ => blocked
  | .redoRequest =>
    match s.sync with
    | .redoing height => { s with sync := .idle }.locked (s.pool.redoRequest height)
    | _ => blocked

/-- The system after a schedule. -/
def run (s : System PeerID Block) (events : List (Event PeerID Block)) :
    Fallible Blocked (System PeerID Block) := Schedules.run (step heightOf) s events

end Steps

/-- A requester of block 1 has sent its request to peer 7. -/
def oneRequest : List (Event ℕ ℤ) :=
  [.setPeerHeight 7 5, .getStatus, .makeNextRequester, .act 0 .check, .pick 0 [7], .act 0 .assign,
    .send 0]

end LkChain.BlockPool
