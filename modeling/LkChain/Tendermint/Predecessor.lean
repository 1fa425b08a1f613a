import LkChain.Tendermint.Validation

/-!
# The commit in an accepted block

A block carries the commit of the block before it. `validateBlock` verifies the precommits of that
commit against the identity of the last block that the state has, and `Block.ValidateBasic` looks at
the commit itself, unless the commit says that the chain starts right before this block. What
nothing compares is the identity that the commit names: it is not in the hash of the commit either,
so a proposer is free to choose it, and next to a starting height of their choice it may be nil.
-/

namespace LkChain.Tendermint.Predecessor

open Foundation Tendermint.Types ValSet ChainState StateStore VerifyCommit Validation
open Validators.ParseTx (Crypto sampleCrypto)

variable {PubKey Signature Address : Type}

/-- The commit is a well-formed one for the last block of the state, signed by more than two thirds
of the validators of that block. -/
structure IsLastCommit (crypto : Crypto PubKey Signature Address)
    (wire : Wire PubKey Signature Address) (s : State PubKey Address) (height : ℤ)
    (commit : Commit Signature Address) : Prop where
  basic : commit.validateBasic = .ok ()
  blockID : commit.blockID = s.lastBlockID
  signed : Justified crypto wire s.chainID s.lastBlockID (height - 1) s.lastValidators commit

theorem validatePrecommits_eq_ok {height round : ℤ}
    {precommits : List (Option (Vote Signature Address))}
    (hvotes : ∀ vote, some vote ∈ precommits →
      vote.type = voteTypePrecommit ∧ vote.height = height ∧ vote.round = round) :
    validatePrecommits height round precommits = .ok () := by
  induction precommits with
  | nil => rfl
  | cons precommit precommits ih =>
    have hrest := ih fun vote hvote ↦ hvotes vote (List.mem_cons_of_mem _ hvote)
    cases precommit with
    | none => exact hrest
    | some vote =>
      obtain ⟨htype, hheight, hround⟩ := hvotes vote List.mem_cons_self
      unfold validatePrecommits
      rw [if_neg (not_not.mpr htype), if_neg (not_not.mpr hheight), if_neg (not_not.mpr hround),
        hrest]

section Accepted

variable {crypto : Crypto PubKey Signature Address} {wire : Wire PubKey Signature Address}
  {db : StateDB PubKey Address} {s : State PubKey Address} {block : Block PubKey Signature Address}
  {valSet : ValidatorSet PubKey Address} {chainID : String} {blockID : BlockID} {height : ℤ}
  {commit : Commit Signature Address}

/-- A commit that passes `VerifyCommit` can fail `ValidateBasic` only by naming no block. -/
theorem validateBasic_of_verifyCommit (hsize : valSet.size ≠ 0)
    (hverify : verifyCommit crypto wire valSet chainID blockID height (some commit) = .ok ()) :
    commit.validateBasic = .ok () ↔ commit.blockID.isZero = false := by
  obtain ⟨hlength, hheight, round, hround, hvotes, -⟩ := verifyCommit_eq_ok_iff_checks.mp hverify
  have hnonempty : commit.precommits.isEmpty = false := by
    rw [List.isEmpty_eq_false_iff, ← List.length_pos_iff, hlength]
    exact Nat.pos_of_ne_zero hsize
  cases hfirst : commit.firstPrecommit with
  | none =>
    unfold Commit.height Commit.firstField at hheight
    rw [hnonempty, hfirst] at hheight
    cases hheight
  | some first =>
    rw [Commit.height, Commit.firstField_of_firstPrecommit hfirst] at hheight
    rw [Commit.round, Commit.firstField_of_firstPrecommit hfirst] at hround
    have hprecommits : validatePrecommits first.height first.round commit.precommits = .ok () := by
      apply validatePrecommits_eq_ok
      intro vote hvote
      obtain ⟨val, hpair⟩ := exists_mem_zip hlength hvote
      have hvalid := hvotes _ hpair vote rfl
      exact ⟨hvalid.type, hvalid.height.trans (Except.ok.inj hheight).symm,
        hvalid.round.trans (Except.ok.inj hround).symm⟩
    unfold Commit.validateBasic Commit.height Commit.round
    rw [hnonempty, Commit.firstField_of_firstPrecommit hfirst,
      Commit.firstField_of_firstPrecommit hfirst]
    cases commit.blockID.isZero with
    | true => simp
    | false =>
      rw [if_neg Bool.false_ne_true, if_neg Bool.false_ne_true, eq_self, iff_true]
      exact congrArg (Except.mapError Stops.Stop.error) hprecommits

theorem verifyCommit_of_validateBlock [LinearOrder Address] (hfirst : s.lastBlockHeight ≠ 0)
    (hlast : s.lastValidators.size ≠ 0)
    (hvalid : validateBlock crypto wire db s block = .ok ()) :
    ∃ commit, block.lastCommit = some commit ∧ verifyCommit crypto wire s.lastValidators s.chainID
      s.lastBlockID (block.header.height - 1) (some commit) = .ok () := by
  unfold validateBlock at hvalid
  simp only [Results.bind_eq_ok_iff, Results.mapError_eq_ok_iff] at hvalid
  obtain ⟨⟨txs, commit⟩, hbasic, _, hheader, _, hcommit, -⟩ := hvalid
  refine ⟨commit, (fields_of_validateBasic hbasic).1, ?_⟩
  simp only [validateHeader, Results.ite_error_eq_ok_iff, not_not] at hheader
  obtain ⟨-, hheight, -⟩ := hheader
  unfold validateCommit at hcommit
  rw [if_neg (by omega), Results.ite_error_eq_ok_iff, Results.mapError_eq_ok_iff] at hcommit
  exact hcommit.2

/-- Votes with more than two thirds of the power stand behind the last block in every accepted block
after the first. The commit is well formed, and a commit of that block, exactly if the identity that
it names is the one of the last block, and not nil. -/
theorem isLastCommit_iff_of_validateBlock [LinearOrder Address] (hfirst : s.lastBlockHeight ≠ 0)
    (hlast : s.lastValidators.size ≠ 0)
    (hnonneg : ∀ v ∈ s.lastValidators.validators, 0 ≤ v.votingPower)
    (hfits : 2 * (powers s.lastValidators.validators).sum < 2 ^ 63)
    (hvalid : validateBlock crypto wire db s block = .ok ()) :
    ∃ commit, block.lastCommit = some commit ∧
      Justified crypto wire s.chainID s.lastBlockID (block.header.height - 1) s.lastValidators
        commit ∧
      (IsLastCommit crypto wire s block.header.height commit ↔
        commit.blockID = s.lastBlockID ∧ s.lastBlockID.isZero = false) := by
  obtain ⟨commit, hcommit, hverify⟩ := verifyCommit_of_validateBlock hfirst hlast hvalid
  obtain ⟨hsize, -, round, -, hvotes, hpower⟩ := verifyCommit_eq_ok_iff_checks.mp hverify
  have hjustified : Justified crypto wire s.chainID s.lastBlockID (block.header.height - 1)
      s.lastValidators commit :=
    ⟨hsize, ⟨round, hvotes⟩, (twoThirds_lt_tally_iff hnonneg hfits).mp hpower⟩
  have hbasic := validateBasic_of_verifyCommit hlast hverify
  refine ⟨commit, hcommit, hjustified, ?_⟩
  constructor
  · rintro ⟨hok, hblockID, -⟩
    exact ⟨hblockID, hblockID ▸ hbasic.mp hok⟩
  · rintro ⟨hblockID, hnonzero⟩
    exact ⟨hbasic.mpr (hblockID ▸ hnonzero), hblockID, hjustified⟩

end Accepted

/-- The state after block 7 of the sample chain, for which three validators of four have voted. -/
def votedState : State UInt8 ℕ :=
  { sampleState 7 with lastBlockID := ⟨[9], ⟨1, [9]⟩⟩, lastValidators := fourOfOne }

/-- An empty block 8 with a given commit. -/
def votedBlock (commit : Commit UInt8 ℕ) : Block UInt8 UInt8 ℕ :=
  { sampleBlock 8 with
    header := { (sampleBlock 8).header with
      lastBlockID := votedState.lastBlockID
      lastCommitHash := some (sampleWire.precommitsHash commit.precommits)
      consensusHash := defaultConsensusParams.hash sampleWire }
    lastCommit := some commit }

theorem isLastCommit_threeOfFour :
    validateBlock sampleCrypto sampleWire .empty votedState (votedBlock threeOfFour) = .ok () ∧
      IsLastCommit sampleCrypto sampleWire votedState 8 threeOfFour := by
  have hvalid :
      validateBlock sampleCrypto sampleWire .empty votedState (votedBlock threeOfFour) = .ok () :=
        rfl
  refine ⟨hvalid, ?_⟩
  obtain ⟨commit, hcommit, -, hiff⟩ := isLastCommit_iff_of_validateBlock
    (by decide) (by decide) (by decide) (by decide) hvalid
  cases hcommit
  exact hiff.mpr (by decide)

/-- The commit of a chain that is said to start at height 7 names no block, and its block is
accepted. -/
theorem nil_commit_accepted :
    let commit : Commit UInt8 ℕ := { threeOfFour with blockID := .zero, nStartBlockNum := 7 }
    validateBlock sampleCrypto sampleWire .empty votedState (votedBlock commit) = .ok () ∧
      commit.validateBasic = .error (.error .commitForNilBlock) ∧
      commit.blockID ≠ votedState.lastBlockID :=
  ⟨rfl, rfl, by decide⟩

end LkChain.Tendermint.Predecessor
