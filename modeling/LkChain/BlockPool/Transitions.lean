import LkChain.BlockPool.Lifecycle

/-!
# What a step does to the pool

Every step of every goroutine is one of ten transitions of the pool and its lock. They keep the pool
well formed, so it is well formed in every state that a schedule reaches.
-/

namespace LkChain.BlockPool

open Foundation Foundation.Stops
open Tendermint.Types (Panic Fallible)

variable {PeerID Block : Type} [DecidableEq PeerID]

/-! ## The removal of peers -/

/-- The requester is in the map and is assigned to one of the peers. -/
def Requester.servedBy (ids : List PeerID) (requester : Requester PeerID Block) : Bool :=
  requester.listed && decide (∃ id ∈ ids, requester.peerID = some id)

/-- The requester after the removal of peers. -/
def Requester.asked (ids : List PeerID) (requester : Requester PeerID Block) :
    Requester PeerID Block := if requester.servedBy ids then requester.redo else requester

/-- The pool after the removal of peers. -/
structure Removed (ids : List PeerID) (pool after : Pool PeerID Block) : Prop where
  cells : after.cells = pool.cells.map (Requester.asked ids)
  height : after.height = pool.height
  numPending : after.numPending = pool.numPending + pool.cells.countP fun requester ↦
    requester.servedBy ids && requester.block.isSome
  lookup : ∀ id, after.peers.lookup id = if id ∈ ids then none else pool.peers.lookup id

section Removal

variable {ids : List PeerID} {pool after : Pool PeerID Block}

theorem servedBy_asked (others ids : List PeerID) (requester : Requester PeerID Block) :
    (requester.asked others).servedBy ids = requester.servedBy ids := by
  unfold Requester.asked
  split <;> rfl

theorem block_asked {requester : Requester PeerID Block} :
    (requester.asked ids).block = requester.block := by
  unfold Requester.asked
  split <;> rfl

theorem key_asked {requester : Requester PeerID Block} :
    (requester.asked ids).key = requester.key := by
  unfold Requester.asked
  split <;> rfl

theorem servedBy_cons (id : PeerID) (ids : List PeerID) (requester : Requester PeerID Block) :
    requester.servedBy (id :: ids) = (requester.servedBy [id] || requester.servedBy ids) := by
  simp [Requester.servedBy, Bool.and_or_distrib_left]

theorem servedBy_eq_false {id : PeerID} {requester : Requester PeerID Block} (hnew : id ∉ ids)
    (hserved : requester.servedBy [id] = true) : requester.servedBy ids = false := by
  simp only [Requester.servedBy, Bool.and_eq_true, decide_eq_true_eq, List.mem_singleton,
    exists_eq_left] at hserved
  unfold Requester.servedBy
  rw [hserved.1, hserved.2, Bool.true_and, decide_eq_false_iff_not]
  rintro ⟨other, hmem, hsame⟩
  cases hsame
  exact hnew hmem

theorem Removed.keys_eq (hremoved : Removed ids pool after) : after.keys = pool.keys := by
  rw [Pool.keys, hremoved.cells, List.map_map, Pool.keys]
  exact List.map_congr_left fun _ _ ↦ key_asked

theorem Removed.get (hremoved : Removed ids pool after) {ref : ℕ}
    {requester : Requester PeerID Block} (hget : pool.cells[ref]? = some requester) :
    after.cells[ref]? = some (requester.asked ids) := by
  rw [hremoved.cells, List.getElem?_map, hget, Option.map_some]

theorem removed_nil : Removed [] pool pool where
  cells := by
    have hsame : Requester.asked [] = (id : Requester PeerID Block → _) := by
      funext requester
      simp [Requester.asked, Requester.servedBy]
    rw [hsame, List.map_id]
  height := rfl
  numPending := by simp [Requester.servedBy]
  lookup _ := by simp

theorem removed_removePeer (id : PeerID) : Removed [id] pool (pool.removePeer (some id)) where
  cells := by simp [Pool.removePeer, Requester.asked, Requester.servedBy]
  height := rfl
  numPending := by simp [Pool.removePeer, Requester.servedBy, Bool.and_assoc]
  lookup other := by
    by_cases hother : other = id
    · subst hother
      simp [Pool.removePeer]
    · simp [Pool.removePeer, hother]

theorem Removed.cons {id : PeerID} (hnew : id ∉ ids)
    (hremoved : Removed ids (pool.removePeer (some id)) after) :
    Removed (id :: ids) pool after := by
  have hfirst : Removed [id] pool (pool.removePeer (some id)) := removed_removePeer id
  constructor
  · rw [hremoved.cells, hfirst.cells, List.map_map]
    apply List.map_congr_left
    intro requester _
    rw [Function.comp_apply]
    cases hserved : requester.servedBy [id] with
    | true =>
      have hother := servedBy_eq_false hnew hserved
      rw [← servedBy_asked [id]] at hother
      unfold Requester.asked at hother ⊢
      rw [hserved, if_pos rfl] at hother ⊢
      rw [hother, servedBy_cons id ids, hserved, Bool.true_or, if_pos rfl,
        if_neg Bool.false_ne_true]
    | false =>
      unfold Requester.asked
      rw [servedBy_cons id ids, hserved, Bool.false_or, if_neg Bool.false_ne_true]
  · rw [hremoved.height, hfirst.height]
  · have hcounts : (pool.cells.countP fun requester ↦
          requester.servedBy [id] && requester.block.isSome) +
        ((pool.removePeer (some id)).cells.countP fun requester ↦
          requester.servedBy ids && requester.block.isSome) =
        pool.cells.countP fun requester ↦
          requester.servedBy (id :: ids) && requester.block.isSome := by
      rw [hfirst.cells, List.countP_map]
      apply Cells.countP_add
      intro requester _
      rw [Function.comp_apply, servedBy_asked, block_asked, servedBy_cons id ids]
      cases hserved : requester.servedBy [id] with
      | true =>
        rw [servedBy_eq_false hnew hserved]
        rfl
      | false => simp
    rw [hremoved.numPending, hfirst.numPending, ← hcounts]
    omega
  · intro other
    rw [hremoved.lookup, hfirst.lookup]
    by_cases hmem : other ∈ ids
    · rw [if_pos hmem, if_pos (List.mem_cons_of_mem _ hmem)]
    · simp [hmem]

theorem exists_removed_cons {id : PeerID} {peer : Peer} {After : Pool PeerID Block → Prop}
    (hpeer : pool.peers.lookup id = some peer)
    (hrest : ∃ ids mid, (∀ other ∈ ids, (pool.removePeer (some id)).peers.lookup other ≠ none) ∧
      Removed ids (pool.removePeer (some id)) mid ∧ After mid) :
    ∃ ids mid, (∀ other ∈ ids, pool.peers.lookup other ≠ none) ∧ Removed ids pool mid ∧
      After mid := by
  obtain ⟨ids, mid, hpresent, hremoved, hafter⟩ := hrest
  have hfirst : Removed [id] pool (pool.removePeer (some id)) := removed_removePeer id
  have hnew : id ∉ ids := by
    intro hmem
    apply hpresent id hmem
    rw [hfirst.lookup, if_pos List.mem_cons_self]
  refine ⟨id :: ids, mid, ?_, hremoved.cons hnew, hafter⟩
  intro other hmem
  rcases List.mem_cons.mp hmem with rfl | hmem
  · rw [hpeer]
    exact Option.some_ne_none _
  · have hother := hpresent other hmem
    rw [hfirst.lookup] at hother
    intro hnone
    rw [hnone, ite_self] at hother
    exact hother rfl

/-- The pool after a peer was found, or none. -/
def Found (pool after : Pool PeerID Block) : Option PeerID → Prop
  | none => after = pool
  | some id => ∃ peer, pool.peers.lookup id = some peer ∧
      after = { pool with peers := pool.peers.insert id peer.incrPending }

theorem removed_of_pick {minHeight : ℤ} {order : List PeerID} {picked : Option PeerID}
    (hpick : Pool.pickIncrAvailablePeer minHeight order pool = (picked, after)) :
    ∃ ids mid, (∀ id ∈ ids, pool.peers.lookup id ≠ none) ∧ Removed ids pool mid ∧
      Found mid after picked := by
  induction order generalizing pool with
  | nil =>
    cases hpick
    exact ⟨[], _, fun _ h ↦ absurd h List.not_mem_nil, removed_nil, rfl⟩
  | cons id order ih =>
    unfold Pool.pickIncrAvailablePeer at hpick
    split at hpick
    next => exact ih hpick
    next peer hpeer =>
      split at hpick
      next => exact exists_removed_cons hpeer (ih hpick)
      next =>
        split at hpick
        next => exact ih hpick
        next =>
          split at hpick
          next => exact ih hpick
          next =>
            cases hpick
            exact ⟨[], pool, fun _ h ↦ absurd h List.not_mem_nil, removed_nil, peer, hpeer, rfl⟩

theorem removed_of_removeTimedoutPeers {slow order : List PeerID}
    (hloop : Pool.removeTimedoutPeers slow order pool = .ok after) :
    ∃ ids mid, (∀ id ∈ ids, pool.peers.lookup id ≠ none) ∧ Removed ids pool mid ∧ after = mid := by
  induction order generalizing pool with
  | nil =>
    cases hloop
    exact ⟨[], _, fun _ h ↦ absurd h List.not_mem_nil, removed_nil, rfl⟩
  | cons id order ih =>
    unfold Pool.removeTimedoutPeers at hloop
    split at hloop
    next => exact ih hloop
    next peer hpeer =>
      split at hloop
      next => cases hloop
      next =>
        split at hloop
        next => exact exists_removed_cons hpeer (ih hloop)
        next => exact ih hloop

end Removal

/-! ## Transitions -/

/-- A peer as it is after `SetPeerHeight` or `onTimeout`. -/
def Renewed (before : Option Peer) (after : Peer) : Prop :=
  match before with
  | none => ∃ height, after = newBPPeer height
  | some peer => after.numPending = peer.numPending ∧ after.recvMonitor = peer.recvMonitor ∧
      after.timeout = peer.timeout

/-- The event is no step of a requester, and no block that a requester takes. -/
def Event.Aside (heightOf : Block → ℤ) (pool : Pool PeerID Block) : Event PeerID Block → Prop
  | .addBlock peerID block => ∀ ref requester,
      pool.requesterAt (heightOf block) = some (ref, requester) →
        requester.block ≠ none ∨ requester.peerID ≠ some peerID
  | .act _ _ => False
  | _ => True

/-- What a step does to the pool and to the holder of its lock. -/
inductive Transition (heightOf : Block → ℤ) (pool : Pool PeerID Block) :
    Option (Delivery PeerID) → Event PeerID Block → Pool PeerID Block →
      Option (Delivery PeerID) → Prop where
  | still {holder event} (haside : event.Aside heightOf pool) :
    Transition heightOf pool holder event pool holder
  | acted {holder ref action requester after} (hcell : pool.cells[ref]? = some requester)
      (hacted : Acted requester action after) :
    Transition heightOf pool holder (.act ref action) (pool.setCell ref after) holder
  | sent {holder ref requester peerID} (hcell : pool.cells[ref]? = some requester)
      (hroutine : requester.routine = .sending peerID) :
    Transition heightOf pool holder (.send ref)
      (pool.setCell ref { requester with routine := .waiting }) holder
  | removed {event ids after} (haside : event.Aside heightOf pool)
      (hremoved : Removed ids pool after) :
    Transition heightOf pool none event after none
  | picked {ref order ids mid found requester picked} (hremoved : Removed ids pool mid)
      (hfound : Found mid found picked) (hcell : mid.cells[ref]? = some requester)
      (hroutine : requester.routine = .picking) :
    Transition heightOf pool none (.pick ref order)
      (found.setCell ref { requester with
        routine := (picked.map Routine.assigning).getD .checking }) none
  | renewed {event peerID peer} (haside : event.Aside heightOf pool)
      (hrenewed : Renewed (pool.peers.lookup peerID) peer) :
    Transition heightOf pool none event { pool with peers := pool.peers.insert peerID peer } none
  | made {event} (haside : event.Aside heightOf pool) :
    Transition heightOf pool none event
      { pool with
        cells := pool.cells ++ [newBPRequester (pool.height + pool.requestersLen)]
        numPending := pool.numPending + 1 } none
  | stored {ref requester peerID block}
      (hat : pool.requesterAt (heightOf block) = some (ref, requester))
      (hblock : requester.block = none) (hpeer : requester.peerID = some peerID) :
    Transition heightOf pool none (.addBlock peerID block)
      (pool.setCell ref { requester with block := some block }) (some ⟨ref, peerID⟩)
  | received {delivery requester after} (hcell : pool.cells[delivery.ref]? = some requester)
      (hroutine : requester.routine = .waiting)
      (hdecr : (pool.setCell delivery.ref { requester with routine := .got }).decrPending
        delivery.peerID = .ok after) :
    Transition heightOf pool (some delivery) .gotBlock after none
  | popped {ref requester} (hat : pool.requesterAt pool.height = some (ref, requester)) :
    Transition heightOf pool none .pop
      { pool.setCell ref requester.pop with height := pool.height + 1 } none

/-! ## What a step does -/

/-- What a step does to the system, event by event. -/
inductive Stepped (heightOf : Block → ℤ) (s : System PeerID Block) :
    Event PeerID Block → System PeerID Block → Prop where
  | getStatus {spawner} : Stepped heightOf s .getStatus { s with spawner := spawner }
  | makeNextRequester (hfree : s.holder = none) :
    Stepped heightOf s .makeNextRequester
      { s with spawner := .polling, pool := s.pool.makeNextRequester }
  | removeTimedoutPeers {slow order pool} (hfree : s.holder = none)
      (hpool : Pool.removeTimedoutPeers slow order s.pool = .ok pool) :
    Stepped heightOf s (.removeTimedoutPeers slow order)
      { s with spawner := .polling, pool := pool }
  | setPeerHeight {peerID height} (hfree : s.holder = none) :
    Stepped heightOf s (.setPeerHeight peerID height)
      { s with pool := s.pool.setPeerHeight peerID height }
  | removePeer {peerID} (hfree : s.holder = none) :
    Stepped heightOf s (.removePeer peerID) { s with pool := s.pool.removePeer (some peerID) }
  | onTimeout {peerID pool} (hfree : s.holder = none) (hpool : s.pool.onTimeout peerID = .ok pool) :
    Stepped heightOf s (.onTimeout peerID) { s with pool := pool }
  | refused {peerID block} (hrefused : ∀ ref requester,
      s.pool.requesterAt (heightOf block) = some (ref, requester) →
        requester.setBlock block peerID = none) :
    Stepped heightOf s (.addBlock peerID block) s
  | addBlock {peerID block ref requester stored} (hfree : s.holder = none)
      (hat : s.pool.requesterAt (heightOf block) = some (ref, requester))
      (hset : requester.setBlock block peerID = some stored) :
    Stepped heightOf s (.addBlock peerID block)
      { s with pool := s.pool.setCell ref stored, holder := some ⟨ref, peerID⟩ }
  | gotBlock {delivery requester pool} (hholder : s.holder = some delivery)
      (hcell : s.pool.cells[delivery.ref]? = some requester)
      (hroutine : requester.routine = .waiting)
      (hdecr : (s.pool.setCell delivery.ref { requester with routine := .got }).decrPending
        delivery.peerID = .ok pool) :
    Stepped heightOf s .gotBlock { s with pool := pool, holder := none }
  | act {ref action requester after} (hcell : s.pool.cells[ref]? = some requester)
      (hact : requester.act action = some after) :
    Stepped heightOf s (.act ref action) { s with pool := s.pool.setCell ref after }
  | pick {ref order requester picked pool} (hfree : s.holder = none)
      (hcell : s.pool.cells[ref]? = some requester) (hroutine : requester.routine = .picking)
      (hpick : Pool.pickIncrAvailablePeer requester.height order s.pool = (picked, pool)) :
    Stepped heightOf s (.pick ref order)
      { s with pool := pool.setRoutine ref ((picked.map Routine.assigning).getD .checking) }
  | send {ref requester peerID} (hcell : s.pool.cells[ref]? = some requester)
      (hroutine : requester.routine = .sending peerID)
      (hroom : s.requests.length < defaultChannelCapacity) :
    Stepped heightOf s (.send ref) { s with
      pool := s.pool.setCell ref { requester with routine := .waiting }
      requests := s.requests ++ [⟨requester.height, peerID⟩] }
  | takeRequest {request rest} (hidle : s.sync = .idle) (hrequests : s.requests = request :: rest) :
    Stepped heightOf s .takeRequest { s with requests := rest }
  | takeTimeout {peerID} (hidle : s.sync = .idle) :
    Stepped heightOf s (.takeTimeout peerID) { s with sync := .stopping peerID }
  | stopPeer {peerID} (hfree : s.holder = none) (hsync : s.sync = .stopping peerID) :
    Stepped heightOf s .stopPeer { s with sync := .idle, pool := s.pool.removePeer (some peerID) }
  | trySync (hidle : s.sync = .idle) : Stepped heightOf s .trySync { s with sync := .peeking 0 }
  | peeked {round first second} (hfree : s.holder = none) (hsync : s.sync = .peeking round)
      (hblocks : s.pool.peekTwoBlocks = (some first, some second)) :
    Stepped heightOf s .peek { s with sync := .verifying round first second }
  | waits {round} (hfree : s.holder = none) (hsync : s.sync = .peeking round) :
    Stepped heightOf s .peek { s with sync := .idle }
  | verify {ok round first second} (hsync : s.sync = .verifying round first second) :
    Stepped heightOf s (.verify ok)
      { s with sync := if ok then .popping round else .redoing (heightOf first) }
  | pop {round pool} (hfree : s.holder = none) (hsync : s.sync = .popping round)
      (hpool : s.pool.popRequest = .ok pool) :
    Stepped heightOf s .pop
      { s with sync := if round + 1 < 10 then .peeking (round + 1) else .idle, pool := pool }
  | redoRequest {height pool} (hfree : s.holder = none) (hsync : s.sync = .redoing height)
      (hpool : s.pool.redoRequest height = .ok pool) :
    Stepped heightOf s .redoRequest { s with sync := .idle, pool := pool }

section Steps

variable {heightOf : Block → ℤ} {s next : System PeerID Block} {event : Event PeerID Block}

theorem renewed_setPeerHeight (pool : Pool PeerID Block) (peerID : PeerID) (height : ℤ) :
    ∃ peer, Renewed (pool.peers.lookup peerID) peer ∧
      pool.setPeerHeight peerID height = { pool with peers := pool.peers.insert peerID peer } := by
  unfold Pool.setPeerHeight
  cases hpeer : pool.peers.lookup peerID with
  | none => exact ⟨_, ⟨height, rfl⟩, rfl⟩
  | some peer => exact ⟨{ peer with height := height }, ⟨rfl, rfl, rfl⟩, rfl⟩

theorem renewed_onTimeout {pool after : Pool PeerID Block} {peerID : PeerID}
    (htimeout : pool.onTimeout peerID = .ok after) :
    ∃ peer, Renewed (pool.peers.lookup peerID) peer ∧
      after = { pool with peers := pool.peers.insert peerID peer } := by
  unfold Pool.onTimeout at htimeout
  split at htimeout
  next peer hpeer =>
    split at htimeout
    next =>
      cases htimeout
      rw [hpeer]
      exact ⟨{ peer with didTimeout := true }, ⟨rfl, rfl, rfl⟩, rfl⟩
    next => cases htimeout
  next => cases htimeout

theorem Found.cells_eq {pool after : Pool PeerID Block} {picked : Option PeerID}
    (hfound : Found pool after picked) :
    after.cells = pool.cells ∧ after.height = pool.height := by
  cases picked with
  | none =>
    rw [hfound]
    exact ⟨rfl, rfl⟩
  | some id =>
    obtain ⟨peer, -, rfl⟩ := hfound
    exact ⟨rfl, rfl⟩

theorem transition_of_pick {pool found : Pool PeerID Block} {ref : ℕ} {order : List PeerID}
    {minHeight : ℤ} {requester : Requester PeerID Block} {picked : Option PeerID}
    (hcell : pool.cells[ref]? = some requester) (hroutine : requester.routine = .picking)
    (hpick : Pool.pickIncrAvailablePeer minHeight order pool = (picked, found)) :
    Transition heightOf pool none (.pick ref order)
      (found.setRoutine ref ((picked.map Routine.assigning).getD .checking)) none := by
  obtain ⟨ids, mid, -, hremoved, hfound⟩ := removed_of_pick hpick
  have hmid := hremoved.get hcell
  have hsame : (requester.asked ids).routine = .picking := by
    rw [← hroutine]
    unfold Requester.asked
    split <;> rfl
  rw [Pool.setRoutine_eq (by rw [hfound.cells_eq.1]; exact hmid)]
  exact .picked hremoved hfound hmid hsame

/-- `RedoRequest` removes the peer of the requester, which has one as it has a block. -/
theorem removePeer_of_redoRequest {pool after : Pool PeerID Block} {height : ℤ}
    (hsound : ∀ requester ∈ pool.cells, requester.Sound heightOf)
    (hredo : pool.redoRequest height = .ok after) :
    ∃ id, after = pool.removePeer (some id) := by
  unfold Pool.redoRequest at hredo
  split at hredo
  next => cases hredo
  next ref requester hat =>
    rw [Results.ite_error_eq_ok_iff, Option.isNone_iff_eq_none] at hredo
    obtain ⟨hblock, hafter⟩ := hredo
    have hmem := List.mem_of_getElem? (Pool.requesterAt_eq_some_iff.mp hat).2
    obtain ⟨id, hid⟩ := Option.ne_none_iff_exists'.mp ((hsound requester hmem).assigned hblock)
    cases hafter
    exact ⟨id, by rw [hid]⟩

theorem stepped_of_step (hstep : step heightOf s event = .ok next) :
    Stepped heightOf s event next := by
  cases event with
  | getStatus =>
    simp only [step] at hstep
    split at hstep
    next =>
      split at hstep <;> cases hstep
      · exact .getStatus
      · exact .getStatus
    next => cases hstep
  | makeNextRequester =>
    simp only [step] at hstep
    split at hstep
    next =>
      obtain ⟨hfree, pool, hpool, rfl⟩ := locked_eq_ok_iff.mp hstep
      cases hpool
      exact .makeNextRequester hfree
    next => cases hstep
  | removeTimedoutPeers slow order =>
    simp only [step] at hstep
    split at hstep
    next =>
      split at hstep
      next =>
        obtain ⟨hfree, pool, hpool, rfl⟩ := locked_eq_ok_iff.mp hstep
        exact .removeTimedoutPeers hfree hpool
      next => cases hstep
    next => cases hstep
  | setPeerHeight peerID height =>
    obtain ⟨hfree, pool, hpool, rfl⟩ := locked_eq_ok_iff.mp hstep
    cases hpool
    exact .setPeerHeight hfree
  | removePeer peerID =>
    obtain ⟨hfree, pool, hpool, rfl⟩ := locked_eq_ok_iff.mp hstep
    cases hpool
    exact .removePeer hfree
  | onTimeout peerID =>
    obtain ⟨hfree, pool, hpool, rfl⟩ := locked_eq_ok_iff.mp hstep
    exact .onTimeout hfree hpool
  | addBlock peerID block =>
    simp only [step] at hstep
    split at hstep
    next => cases hstep
    next hfree hnone =>
      cases hstep
      exact .refused fun _ _ hat ↦ nomatch hnone.symm.trans hat
    next ref requester hfree hat =>
      split at hstep <;> cases hstep
      next hset =>
        refine .refused fun _ _ hfound ↦ ?_
        cases hat.symm.trans hfound
        exact hset
      next stored hset => exact .addBlock hfree hat hset
  | gotBlock =>
    simp only [step] at hstep
    split at hstep
    next => cases hstep
    next delivery hholder =>
      split at hstep
      next => cases hstep
      next requester hcell =>
        split at hstep
        next hroutine =>
          obtain ⟨pool, hdecr, hreturn⟩ := Results.bind_eq_ok_iff.mp hstep
          cases hreturn
          exact .gotBlock hholder hcell hroutine hdecr
        next => cases hstep
  | act ref action =>
    simp only [step] at hstep
    split at hstep <;> cases hstep
    next after hact =>
      obtain ⟨requester, hcell, hact⟩ := Option.bind_eq_some_iff.mp hact
      exact .act hcell hact
  | pick ref order =>
    simp only [step] at hstep
    split at hstep
    next requester hfree hcell =>
      split at hstep
      next hpicking =>
        split at hstep <;> cases hstep
        next hpick => exact .pick hfree hcell hpicking.1 hpick
        next hpick => exact .pick hfree hcell hpicking.1 hpick
      next => cases hstep
    next => cases hstep
  | send ref =>
    simp only [step] at hstep
    split at hstep
    next => cases hstep
    next requester hcell =>
      split at hstep
      next peerID hroutine =>
        split at hstep <;> cases hstep
        next hroom => exact .send hcell hroutine hroom
      next => cases hstep
  | takeRequest =>
    simp only [step] at hstep
    split at hstep <;> cases hstep
    next hidle hrequests => exact .takeRequest hidle hrequests
  | takeTimeout peerID =>
    simp only [step] at hstep
    split at hstep <;> cases hstep
    next hidle => exact .takeTimeout hidle
  | stopPeer =>
    simp only [step] at hstep
    split at hstep
    next hsync =>
      obtain ⟨hfree, pool, hpool, rfl⟩ := locked_eq_ok_iff.mp hstep
      cases hpool
      exact .stopPeer hfree hsync
    next => cases hstep
  | trySync =>
    simp only [step] at hstep
    split at hstep <;> cases hstep
    next hidle => exact .trySync hidle
  | peek =>
    simp only [step] at hstep
    split at hstep
    next hfree hsync =>
      split at hstep <;> cases hstep
      next hblocks => exact .peeked hfree hsync hblocks
      next => exact .waits hfree hsync
    next => cases hstep
  | verify ok =>
    simp only [step] at hstep
    split at hstep <;> cases hstep
    next hsync => exact .verify hsync
  | pop =>
    simp only [step] at hstep
    split at hstep
    next hsync =>
      obtain ⟨hfree, pool, hpool, rfl⟩ := locked_eq_ok_iff.mp hstep
      exact .pop hfree hsync hpool
    next => cases hstep
  | redoRequest =>
    simp only [step] at hstep
    split at hstep
    next hsync =>
      obtain ⟨hfree, pool, hpool, rfl⟩ := locked_eq_ok_iff.mp hstep
      exact .redoRequest hfree hsync hpool
    next => cases hstep

theorem transition_of_popRequest {pool after : Pool PeerID Block}
    (hpop : pool.popRequest = .ok after) : Transition heightOf pool none .pop after none := by
  unfold Pool.popRequest at hpop
  split at hpop <;> cases hpop
  next ref requester hat => exact .popped hat

theorem transition_of_makeNextRequester {pool : Pool PeerID Block} (hwindow : pool.Window) :
    Transition heightOf pool none .makeNextRequester pool.makeNextRequester none := by
  rw [hwindow.makeNextRequester_eq]
  exact .made trivial

theorem transition_of_step (hwell : WellFormed heightOf s.pool s.holder)
    (hstep : step heightOf s event = .ok next) :
    Transition heightOf s.pool s.holder event next.pool next.holder := by
  cases stepped_of_step hstep with
  | makeNextRequester hfree =>
    rw [hfree]
    exact transition_of_makeNextRequester hwell.window
  | removeTimedoutPeers hfree hpool =>
    obtain ⟨ids, mid, -, hremoved, rfl⟩ := removed_of_removeTimedoutPeers hpool
    rw [hfree]
    exact .removed trivial hremoved
  | @setPeerHeight peerID height hfree =>
    obtain ⟨peer, hrenewed, hafter⟩ := renewed_setPeerHeight s.pool peerID height
    rw [hfree, hafter]
    exact .renewed trivial hrenewed
  | @removePeer peerID hfree =>
    rw [hfree]
    exact .removed trivial (removed_removePeer peerID)
  | @stopPeer peerID hfree hsync =>
    rw [hfree]
    exact .removed trivial (removed_removePeer peerID)
  | onTimeout hfree hpool =>
    obtain ⟨peer, hrenewed, rfl⟩ := renewed_onTimeout hpool
    rw [hfree]
    exact .renewed trivial hrenewed
  | refused hrefused =>
    exact .still fun ref requester hat ↦ setBlock_eq_none_iff.mp (hrefused ref requester hat)
  | addBlock hfree hat hset =>
    obtain ⟨⟨hblock, hpeer⟩, rfl⟩ := setBlock_eq_some_iff.mp hset
    rw [hfree]
    exact .stored hat hblock hpeer
  | gotBlock hholder hcell hroutine hdecr =>
    rw [hholder]
    exact .received hcell hroutine hdecr
  | act hcell hact => exact .acted hcell (acted_of_act hact)
  | pick hfree hcell hroutine hpick =>
    rw [hfree]
    exact transition_of_pick hcell hroutine hpick
  | send hcell hroutine => exact .sent hcell hroutine
  | pop hfree hsync hpool =>
    rw [hfree]
    exact transition_of_popRequest hpool
  | redoRequest hfree hsync hpool =>
    obtain ⟨id, rfl⟩ := removePeer_of_redoRequest hwell.sound hpool
    rw [hfree]
    exact .removed trivial (removed_removePeer id)
  | _ => exact .still trivial

/-- What a step does to the channel of requests and to `poolRoutine`. -/
inductive Routed (heightOf : Block → ℤ) (s next : System PeerID Block) :
    Event PeerID Block → Prop
  | other {event : Event PeerID Block} (hsync : next.sync = s.sync)
    (hrequests : next.requests = s.requests) (hpop : event ≠ .pop) : Routed heightOf s next event
  | sent {ref : ℕ} (hroom : s.requests.length < defaultChannelCapacity)
    (hsync : next.sync = s.sync) (hlength : next.requests.length = s.requests.length + 1) :
    Routed heightOf s next (.send ref)
  | taken (hidle : s.sync = .idle) (hsync : next.sync = s.sync)
    (hlength : s.requests.length = next.requests.length + 1) : Routed heightOf s next .takeRequest
  | stopping {peerID : PeerID} (hidle : s.sync = .idle) (hsync : next.sync = .stopping peerID)
    (hrequests : next.requests = s.requests) : Routed heightOf s next (.takeTimeout peerID)
  | stopped (hfree : s.holder = none) (hsync : next.sync = .idle)
    (hrequests : next.requests = s.requests) : Routed heightOf s next .stopPeer
  | started (hidle : s.sync = .idle) (hsync : next.sync = .peeking 0)
    (hrequests : next.requests = s.requests) : Routed heightOf s next .trySync
  | peeked (hfree : s.holder = none) (hrequests : next.requests = s.requests) :
    Routed heightOf s next .peek
  | verified {ok : Bool} {round : ℕ} {first second : Block}
    (hbefore : s.sync = .verifying round first second)
    (hsync : next.sync = if ok then .popping round else .redoing (heightOf first))
    (hrequests : next.requests = s.requests) : Routed heightOf s next (.verify ok)
  | popped {round : ℕ} (hfree : s.holder = none)
    (hsync : next.sync = if round + 1 < 10 then .peeking (round + 1) else .idle)
    (hrequests : next.requests = s.requests) : Routed heightOf s next .pop
  | redone (hfree : s.holder = none) (hsync : next.sync = .idle)
    (hrequests : next.requests = s.requests) : Routed heightOf s next .redoRequest

theorem routed_of_step (hstep : step heightOf s event = .ok next) :
    Routed heightOf s next event := by
  cases stepped_of_step hstep with
  | send hcell hroutine hroom => exact .sent hroom rfl List.length_append
  | takeRequest hidle hrequests => exact .taken hidle rfl (by rw [hrequests]; rfl)
  | takeTimeout hidle => exact .stopping hidle rfl rfl
  | stopPeer hfree => exact .stopped hfree rfl rfl
  | trySync hidle => exact .started hidle rfl rfl
  | peeked hfree => exact .peeked hfree rfl
  | waits hfree => exact .peeked hfree rfl
  | verify hsync => exact .verified hsync rfl rfl
  | pop hfree => exact .popped hfree rfl rfl
  | redoRequest hfree => exact .redone hfree rfl rfl
  | _ => exact .other rfl rfl (by simp)

end Steps

/-! ## Well-formed pools -/

section WellFormed

variable {heightOf : Block → ℤ} {pool after : Pool PeerID Block}
  {holder holder' : Option (Delivery PeerID)} {event : Event PeerID Block}

theorem Pool.decrPending_eq_ok {peerID : PeerID}
    (hdecr : pool.decrPending peerID = .ok after) :
    after.cells = pool.cells ∧ after.height = pool.height := by
  unfold Pool.decrPending at hdecr
  split at hdecr
  next =>
    cases hdecr
    exact ⟨rfl, rfl⟩
  next =>
    obtain ⟨peer, -, hreturn⟩ := Results.bind_eq_ok_iff.mp hdecr
    cases hreturn
    exact ⟨rfl, rfl⟩

theorem WellFormed.removed (hwell : WellFormed heightOf pool none) {ids : List PeerID}
    (hremoved : Removed ids pool after) : WellFormed heightOf after none := by
  refine ⟨?_, hwell.window.congr hremoved.keys_eq hremoved.height, fun _ h ↦ nomatch h⟩
  intro cell hmem
  rw [hremoved.cells] at hmem
  obtain ⟨requester, hold, rfl⟩ := List.mem_map.mp hmem
  unfold Requester.asked
  split
  · exact (hwell.sound requester hold).redo
  · exact hwell.sound requester hold

theorem WellFormed.transition (hwell : WellFormed heightOf pool holder)
    (htransition : Transition heightOf pool holder event after holder') :
    WellFormed heightOf after holder' := by
  cases htransition with
  | still => exact hwell
  | acted hcell hacted =>
    have hsound := hwell.sound _ (List.mem_of_getElem? hcell)
    exact hwell.setCell hcell (hsound.act hacted) hacted.key_eq
      fun _ _ _ hdelivering ↦ hacted.delivering hsound hdelivering
  | sent hcell hroutine =>
    have hsound := hwell.sound _ (List.mem_of_getElem? hcell)
    have hfits := hsound.fits
    rw [hroutine] at hfits
    refine hwell.setCell hcell (hsound.goto hfits) rfl ?_
    rintro delivery - - ⟨hlisted, hstate⟩
    rw [hroutine] at hstate
    rcases hstate with ⟨-, hblock⟩ | hpast
    · exact ⟨hlisted, .inl ⟨rfl, hblock⟩⟩
    · cases hpast
  | removed _ hremoved => exact hwell.removed hremoved
  | picked hremoved hfound hcell hroutine =>
    have hmid := (hwell.removed hremoved).of_cells_eq hfound.cells_eq.1 hfound.cells_eq.2
    have hget := hcell
    rw [← hfound.cells_eq.1] at hget
    have hsound := hmid.sound _ (List.mem_of_getElem? hget)
    have hfits := hsound.fits
    rw [hroutine] at hfits
    refine hmid.setCell hget (hsound.goto ?_) rfl fun _ h ↦ nomatch h
    cases ‹Option PeerID› with
    | none => exact hfits
    | some id => exact hfits
  | renewed => exact hwell.of_cells_eq rfl rfl
  | made =>
    refine ⟨?_, hwell.window.make ?_ rfl, fun _ h ↦ nomatch h⟩
    · intro cell hmem
      rcases List.mem_append.mp hmem with hold | hnew
      · exact hwell.sound cell hold
      · rw [List.mem_singleton.mp hnew]
        exact sound_newBPRequester _
    · rw [Pool.keys, List.map_append]
      rfl
  | stored hat hblock hpeer =>
    obtain ⟨hlisted, hheight⟩ := Pool.listed_of_requesterAt hat
    have hcell := (Pool.requesterAt_eq_some_iff.mp hat).2
    have hsound := hwell.sound _ (List.mem_of_getElem? hcell)
    have hassigned := ne_of_eq_of_ne hpeer (Option.some_ne_none _)
    have hset := hwell.setCell hcell (hsound.setBlock hassigned hheight.symm) rfl
      fun _ h ↦ nomatch h
    refine ⟨hset.sound, hset.window, ?_⟩
    rintro delivery hholder
    cases hholder
    refine ⟨_, Cells.get_set_self hcell, hlisted, ?_⟩
    rcases hsound.routine_of_setBlock hlisted hblock hassigned with hreceptive | hresetting
    · exact .inl ⟨hreceptive, Option.some_ne_none _, hpeer⟩
    · refine .inr ?_
      dsimp only
      rw [hresetting]
      rfl
  | @received delivery requester _ hcell hroutine hdecr =>
    obtain ⟨hcells, hheight⟩ := Pool.decrPending_eq_ok hdecr
    obtain ⟨found, hget, hlisted, hstate⟩ := hwell.delivery _ rfl
    rw [hcell] at hget
    cases hget
    rw [hroutine] at hstate
    rcases hstate with ⟨-, hblock, -⟩ | hpast
    · have hsound := hwell.sound _ (List.mem_of_getElem? hcell)
      have hfits : Routine.got.Fits requester.peerID requester.block requester.running :=
        ⟨hsound.assigned hblock, hblock⟩
      have hset := hwell.released.setCell hcell (hsound.goto hfits) rfl fun _ h ↦ nomatch h
      exact hset.of_cells_eq hcells hheight
    · cases hpast
  | popped hat =>
    have hcell := (Pool.requesterAt_eq_some_iff.mp hat).2
    refine ⟨?_, hwell.window.pop hat, fun _ h ↦ nomatch h⟩
    intro cell hmem
    rcases List.mem_or_eq_of_mem_set hmem with hold | rfl
    · exact hwell.sound cell hold
    · exact (hwell.sound _ (List.mem_of_getElem? hcell)).pop

theorem wellFormed_of_run {start : ℤ} {events : List (Event PeerID Block)}
    {s : System PeerID Block} (hrun : run heightOf (newBlockPool start) events = .ok s) :
    WellFormed heightOf s.pool s.holder :=
  Schedules.invariant (fun s ↦ WellFormed heightOf s.pool s.holder)
    (fun _ _ _ _ hwell hstep ↦ hwell.transition (transition_of_step hwell hstep))
    (wellFormed_newBlockPool start) hrun

end WellFormed

end LkChain.BlockPool
