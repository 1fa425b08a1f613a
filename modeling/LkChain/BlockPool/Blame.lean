import LkChain.BlockPool.Transitions
import LkChain.Tendermint.Validation

/-!
# Who is removed after a failed verification

The sync loop verifies a block by the commit in the next one. If that fails, either of the two
blocks may be wrong, and they may come from different peers. `RedoRequest` always removes the peer
of the first. The peer of the second one stays, although it is the one to blame if the validators
have signed the first block; so does its block, and the next verification fails as well.
-/

namespace LkChain.BlockPool

open Foundation Foundation.Stops
open Tendermint Tendermint.Types Tendermint.ChainState Tendermint.VerifyCommit
open Tendermint.Validation (verifyFirst)
open Validators.ParseTx (Bytes Crypto sampleCrypto)

variable {PeerID PubKey Signature Address : Type}

section Program

variable [DecidableEq PeerID] (crypto : Crypto PubKey Signature Address)
  (wire : Wire PubKey Signature Address)

/-- The height of a block of tendermint. -/
def blockHeight (block : Block PubKey Signature Address) : ℤ := block.header.height

/-- A round of the sync loop that nobody interrupts, as far as the pool is concerned. -/
def syncRound (s : State PubKey Address) (system : System PeerID (Block PubKey Signature Address)) :
    Fallible Blocked (System PeerID (Block PubKey Signature Address)) :=
  match system.pool.peekTwoBlocks with
  | (some first, some second) =>
    match verifyFirst crypto wire s first second with
    | .ok _ => run blockHeight system [.peek, .verify true, .pop]
    | .error (.error _) => run blockHeight system [.peek, .verify false, .redoRequest]
    | .error (.panic cause) => .error (.panic cause)
  | _ => run blockHeight system [.peek]

end Program

section Specification

variable (crypto : Crypto PubKey Signature Address) (wire : Wire PubKey Signature Address)
  (votes : Set (Vote Signature Address)) (s : State PubKey Address)

/-- Of the votes that were cast, those for the block are of validators with more than two thirds of
the power. -/
def Signed (block : Block PubKey Signature Address) : Prop :=
  ∃ (parts : PartSet) (hashed : Block PubKey Signature Address) (hash : Bytes)
    (commit : Commit Signature Address),
    (block.makePartSet wire s.consensusParams.blockPartSizeBytes :
      Fallible (CommitError Signature Address) PartSet) = .ok parts ∧
    (block.hash wire : Fallible (CommitError Signature Address) _) = .ok (hashed, hash) ∧
    Justified crypto wire s.chainID ⟨hash, parts.header⟩ block.header.height s.validators commit ∧
    ∀ vote, some vote ∈ commit.precommits → vote ∈ votes

variable [DecidableEq PeerID]

/-- The peer that supplied the faulty data is removed: that of the second block, which is then
requested again, if the validators have signed the first one, and that of the first block if not. -/
structure Blamed (first : Block PubKey Signature Address) (firstPeer secondPeer : PeerID)
    (secondRef : ℕ) (after : Pool PeerID (Block PubKey Signature Address)) : Prop where
  second : Signed crypto wire votes s first → after.peers.lookup secondPeer = none ∧
    ∃ requester, after.cells[secondRef]? = some requester ∧ requester.outstanding = true
  first : ¬ Signed crypto wire votes s first → after.peers.lookup firstPeer = none

end Specification

section Blame

variable [DecidableEq PeerID] {crypto : Crypto PubKey Signature Address}
  {wire : Wire PubKey Signature Address} {votes : Set (Vote Signature Address)}
  {s : State PubKey Address} {system : System PeerID (Block PubKey Signature Address)}
  {first second : Block PubKey Signature Address} {firstPeer secondPeer : PeerID}
  {firstRef secondRef round : ℕ}
  {firstRequester secondRequester : Requester PeerID (Block PubKey Signature Address)}

theorem syncRound_of_error {error : CommitError Signature Address}
    (hwell : WellFormed blockHeight system.pool system.holder) (hfree : system.holder = none)
    (hsync : system.sync = .peeking round)
    (hfirst : system.pool.requesterAt system.pool.height = some (firstRef, firstRequester))
    (hsecond : system.pool.requesterAt (system.pool.height + 1) = some (secondRef, secondRequester))
    (hfirstBlock : firstRequester.block = some first)
    (hsecondBlock : secondRequester.block = some second)
    (hfails : verifyFirst crypto wire s first second = .error (.error error)) :
    syncRound crypto wire s system = .ok { system with
      pool := system.pool.removePeer firstRequester.peerID, sync := .idle } := by
  have hpeek : system.pool.peekTwoBlocks = (some first, some second) := by
    unfold Pool.peekTwoBlocks
    rw [hfirst, hsecond, Option.bind_some, Option.bind_some, hfirstBlock, hsecondBlock]
  have hheight : blockHeight first = system.pool.height :=
    hwell.height_of_requesterAt hfirst hfirstBlock
  have hredo : system.pool.redoRequest (blockHeight first) =
      .ok (system.pool.removePeer firstRequester.peerID) := by
    unfold Pool.redoRequest
    rw [hheight, hfirst]
    dsimp only
    rw [hfirstBlock]
    rfl
  unfold syncRound
  rw [hpeek]
  dsimp only
  rw [hfails]
  have hpeeked : step blockHeight system .peek =
      .ok { system with sync := .verifying round first second } := by
    simp only [step, hfree, hsync, hpeek]
  refine Schedules.run_cons_eq_ok_iff.mpr ⟨_, hpeeked, Schedules.run_cons_eq_ok_iff.mpr
    ⟨_, rfl, Schedules.run_cons_eq_ok_iff.mpr ⟨_, ?_, rfl⟩⟩⟩
  exact locked_eq_ok_iff.mpr ⟨hfree, _, hredo, rfl⟩

/-- What the removal of the peer of the first block does to the requester of the second. -/
theorem outstanding_asked_iff (hlisted : secondRequester.listed = true)
    (hpeer : secondRequester.peerID = some secondPeer) :
    (secondRequester.asked [firstPeer]).outstanding = true ↔
      firstPeer = secondPeer ∨ secondRequester.outstanding = true := by
  by_cases hsame : firstPeer = secondPeer
  · simp [Requester.asked, Requester.servedBy, Requester.outstanding, Requester.redo,
      hlisted, hpeer,
      hsame]
  · have hother : secondPeer ≠ firstPeer := Ne.symm hsame
    simp [Requester.asked, Requester.servedBy, hpeer, hother, hsame]

/-- After a failed verification the peer of the first block is removed, whoever is to blame. If the
validators have signed the first block, the right one is removed exactly if both blocks come from
one peer, or if the peer of the second block had been removed before and its request is being
redone. -/
theorem failed_verification_blames_iff {start : ℤ}
    {events : List (Event PeerID (Block PubKey Signature Address))}
    {error : CommitError Signature Address}
    (hrun : run blockHeight (newBlockPool start) events = .ok system)
    (hfree : system.holder = none) (hsync : system.sync = .peeking round)
    (hfirst : system.pool.requesterAt system.pool.height = some (firstRef, firstRequester))
    (hsecond : system.pool.requesterAt (system.pool.height + 1) = some (secondRef, secondRequester))
    (hfirstBlock : firstRequester.block = some first)
    (hsecondBlock : secondRequester.block = some second)
    (hfirstPeer : firstRequester.peerID = some firstPeer)
    (hsecondPeer : secondRequester.peerID = some secondPeer)
    (hfails : verifyFirst crypto wire s first second = .error (.error error)) :
    ∃ after, syncRound crypto wire s system = .ok after ∧
      after.pool.peers.lookup firstPeer = none ∧
      (Blamed crypto wire votes s first firstPeer secondPeer secondRef after.pool ↔
        (Signed crypto wire votes s first → firstPeer = secondPeer ∨
          system.pool.peers.lookup secondPeer = none ∧ secondRequester.outstanding = true)) := by
  have hround := syncRound_of_error (wellFormed_of_run hrun) hfree hsync hfirst hsecond hfirstBlock
    hsecondBlock hfails
  rw [hfirstPeer] at hround
  have hremoved : Removed [firstPeer] system.pool (system.pool.removePeer (some firstPeer)) :=
    removed_removePeer firstPeer
  have hgone : (system.pool.removePeer (some firstPeer)).peers.lookup firstPeer = none := by
    rw [hremoved.lookup, if_pos List.mem_cons_self]
  have hpeer : (system.pool.removePeer (some firstPeer)).peers.lookup secondPeer = none ↔
      firstPeer = secondPeer ∨ system.pool.peers.lookup secondPeer = none := by
    rw [hremoved.lookup]
    by_cases hsame : firstPeer = secondPeer
    · simp [hsame]
    · simp [hsame, Ne.symm hsame]
  have hcell := hremoved.get (Pool.requesterAt_eq_some_iff.mp hsecond).2
  have houtstanding : (∃ requester,
      (system.pool.removePeer (some firstPeer)).cells[secondRef]? = some requester ∧
        requester.outstanding = true) ↔
      firstPeer = secondPeer ∨ secondRequester.outstanding = true := by
    rw [← outstanding_asked_iff (Pool.listed_of_requesterAt hsecond).1 hsecondPeer, hcell]
    simp only [Option.some.injEq, exists_eq_left']
  refine ⟨_, hround, hgone, ?_⟩
  rw [or_and_left, ← hpeer, ← houtstanding]
  exact ⟨fun hblamed ↦ hblamed.second, fun hsecond ↦ ⟨hsecond, fun _ ↦ hgone⟩⟩

end Blame

open Tendermint.Validation (sampleBlock)

/-- Blocks 1 and 2 have arrived, the first from peer 7, and the sync loop starts. -/
def twoBlocks (secondPeer : ℕ) : List (Event ℕ (Block UInt8 UInt8 ℕ)) :=
  [.setPeerHeight 7 5, .setPeerHeight 8 5, .getStatus, .makeNextRequester, .act 0 .check,
    .pick 0 [7, 8], .act 0 .assign, .send 0, .getStatus, .makeNextRequester, .act 1 .check,
    .pick 1 [secondPeer, 15 - secondPeer], .act 1 .assign, .send 1, .addBlock 7 (sampleBlock 1),
    .gotBlock, .addBlock secondPeer (sampleBlock 2), .gotBlock, .trySync]

/-- The vote of the only validator for block 1. -/
def voteForFirst : Vote UInt8 ℕ :=
  ⟨1, 0, 1, 0, 0, voteTypePrecommit, ⟨[4, 1, 200], ⟨1, [8, 1, 200]⟩⟩, 1⟩

theorem signed_sampleBlock :
    Signed sampleCrypto sampleWire {voteForFirst} (sampleState 0) (sampleBlock 1) := by
  refine ⟨⟨[8, 1, 200], [some ⟨0, [8, 1, 200], []⟩]⟩, sampleBlock 1, [4, 1, 200],
    ⟨.zero, [some voteForFirst], 0⟩, rfl, rfl, ⟨rfl, ⟨0, ?_⟩, by decide⟩, ?_⟩
  · intro pair hpair vote hvote
    cases List.mem_singleton.mp hpair
    cases hvote
    exact ⟨rfl, rfl, rfl, rfl, rfl⟩
  · intro vote hvote
    cases List.mem_singleton.mp hvote
    rfl

/-- Both blocks come from one peer, which is removed. -/
theorem blames_one_peer : ∃ system after,
    run blockHeight (newBlockPool 1) (twoBlocks 7) = .ok system ∧
    syncRound sampleCrypto sampleWire (sampleState 0) system = .ok after ∧
    Blamed sampleCrypto sampleWire {voteForFirst} (sampleState 0) (sampleBlock 1) 7 7 1
      after.pool := by
  obtain ⟨system, first, second, hrun, hfree, hsync, hfirst, hsecond, hfirstBlock, hsecondBlock,
      hfirstPeer, hsecondPeer⟩ : ∃ (system : System ℕ (Block UInt8 UInt8 ℕ)) (first second : _),
      run blockHeight (newBlockPool 1) (twoBlocks 7) = .ok system ∧ system.holder = none ∧
      system.sync = .peeking 0 ∧
      system.pool.requesterAt system.pool.height = some (0, first) ∧
      system.pool.requesterAt (system.pool.height + 1) = some (1, second) ∧
      first.block = some (sampleBlock 1) ∧ second.block = some (sampleBlock 2) ∧
      first.peerID = some 7 ∧ second.peerID = some 7 :=
    ⟨_, _, _, rfl, rfl, rfl, rfl, rfl, rfl, rfl, rfl, rfl⟩
  have hfails : verifyFirst sampleCrypto sampleWire (sampleState 0) (sampleBlock 1)
    (sampleBlock 2) =
      .error (.error (.wrongSetSize 1 0)) := rfl
  obtain ⟨after, hround, -, hblamed⟩ := failed_verification_blames_iff hrun hfree hsync hfirst
    hsecond hfirstBlock hsecondBlock hfirstPeer hsecondPeer hfails
  exact ⟨system, after, hrun, hround, hblamed.mpr fun _ ↦ .inl rfl⟩

/-- The validator has signed block 1, and block 2 of peer 8 has an empty commit. Peer 7 is removed;
peer 8 stays, and its block is not requested again. -/
theorem removes_honest_peer : ∃ system after requester,
    run blockHeight (newBlockPool 1) (twoBlocks 8) = .ok system ∧
    syncRound sampleCrypto sampleWire (sampleState 0) system = .ok after ∧
    Signed sampleCrypto sampleWire {voteForFirst} (sampleState 0) (sampleBlock 1) ∧
    after.pool.peers.lookup 7 = none ∧ after.pool.peers.lookup 8 ≠ none ∧
    after.pool.requesterAt 2 = some (1, requester) ∧ requester.block = some (sampleBlock 2) ∧
    requester.peerID = some 8 ∧ requester.outstanding = false := by
  obtain ⟨system, after, requester, hrun, hround, hfirst, hsecond, hrest⟩ :
    ∃ system after requester,
      run blockHeight (newBlockPool 1) (twoBlocks 8) = .ok system ∧
      syncRound sampleCrypto sampleWire (sampleState 0) system = .ok after ∧
      after.pool.peers.lookup 7 = none ∧ (after.pool.peers.lookup 8).isSome = true ∧
      after.pool.requesterAt 2 = some (1, requester) ∧ requester.block = some (sampleBlock 2) ∧
      requester.peerID = some 8 ∧ requester.outstanding = false :=
    ⟨_, _, _, rfl, rfl, rfl, rfl, rfl, rfl, rfl, rfl⟩
  exact ⟨system, after, requester, hrun, hround, signed_sampleBlock, hfirst,
    Option.isSome_iff_ne_none.mp hsecond, hrest⟩

end LkChain.BlockPool
