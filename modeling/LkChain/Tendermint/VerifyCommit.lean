import LkChain.Tendermint.ValSet

/-!
# Verifying a commit

`ValidatorSet.VerifyCommit`. The loop over the precommits stops at the first one that is not a
valid vote of its validator and adds up, in 64-bit words, the power of those that are for the block.
The threshold is two thirds of the total, rounded down. `Justified` says what a commit has to be,
in exact arithmetic, and the two agree as long as twice the total fits in a word.
-/

namespace LkChain.Tendermint.VerifyCommit

open Foundation Foundation.Stops Tendermint.Types ValSet
open Validators
open ParseTx (Crypto)

variable {PubKey Signature Address : Type}

/-- The errors of `VerifyCommit`. -/
inductive CommitError (Signature Address : Type) where
  | wrongSetSize (size precommits : ℕ)
  | wrongHeight (expected found : ℤ)
  | wrongRound (expected found : ℤ)
  | notPrecommit (index : ℕ)
  | invalidSignature (precommit : Vote Signature Address)
  | insufficientPower (got needed : ℤ)
deriving DecidableEq

section Program

variable (crypto : Crypto PubKey Signature Address) (wire : Wire PubKey Signature Address)
  (valSet : ValidatorSet PubKey Address) (chainID : String) (blockID : BlockID) (height : ℤ)

/-- The body of the loop of `VerifyCommit` on a vote: the power it adds, if it is for the block. -/
def checkPrecommit (round : ℤ) (index : ℕ) (precommit : Vote Signature Address) :
    Fallible (CommitError Signature Address) (Option ℤ) :=
  if precommit.height ≠ height then .error (.error (.wrongHeight height precommit.height))
  else if precommit.round ≠ round then .error (.error (.wrongRound round precommit.round))
  else if precommit.type ≠ voteTypePrecommit then .error (.error (.notPrecommit index))
  else
    match valSet.getByIndex index with
    | none => .error (.panic .nilDereference)
    | some val =>
      if crypto.empty val.pubKey then .error (.panic .nilDereference)
      else if crypto.verifyBytes val.pubKey (wire.signBytes chainID precommit)
          precommit.signature then
        .ok (if blockID = precommit.blockID then some val.votingPower else none)
      else .error (.error (.invalidSignature precommit))

/-- The loop of `VerifyCommit`, from an index on. -/
def tallyPrecommits (round : ℤ) : ℕ → List (Option (Vote Signature Address)) → ℤ →
    Fallible (CommitError Signature Address) ℤ
  | _, [], tallied => .ok tallied
  | index, none :: rest, tallied => tallyPrecommits round (index + 1) rest tallied
  | index, some precommit :: rest, tallied => do
    let counted ← checkPrecommit crypto wire valSet chainID blockID height round index precommit
    tallyPrecommits round (index + 1) rest
      (counted.elim tallied fun power ↦ Int64.wrap (tallied + power))

/-- Two thirds of the total power, as `VerifyCommit` computes them. -/
def twoThirds : ℤ := (Int64.wrap (valSet.totalVotingPower * 2)).tdiv 3

def verifyCommit (commit : Option (Commit Signature Address)) :
    Fallible (CommitError Signature Address) Unit :=
  match commit with
  | none => .error (.panic .nilDereference)
  | some commit =>
    if valSet.size ≠ commit.precommits.length then
      .error (.error (.wrongSetSize valSet.size commit.precommits.length))
    else do
      let commitHeight ← commit.height
      if height ≠ commitHeight then .error (.error (.wrongHeight height commitHeight))
      else
        let round ← commit.round
        let tallied ← tallyPrecommits crypto wire valSet chainID blockID height round 0
          commit.precommits 0
        if twoThirds valSet < tallied then .ok ()
        else .error (.error (.insufficientPower tallied (Int64.wrap (twoThirds valSet + 1))))

end Program

/-! ## What a commit has to be -/

section Specification

variable (crypto : Crypto PubKey Signature Address) (wire : Wire PubKey Signature Address)
  (chainID : String) (blockID : BlockID) (height : ℤ)

/-- A vote of this validator in a commit of this height and round. A key that wraps nil has no
valid signature. -/
structure ValidVote (round : ℤ) (val : Validator PubKey Address)
    (vote : Vote Signature Address) : Prop where
  height : vote.height = height
  round : vote.round = round
  type : vote.type = voteTypePrecommit
  key : crypto.empty val.pubKey = false
  signature : crypto.verifyBytes val.pubKey (wire.signBytes chainID vote) vote.signature = true

/-- The power of a validator whose precommit is for the block. -/
def powerFor (blockID : BlockID) :
    Validator PubKey Address × Option (Vote Signature Address) → Option ℤ
  | (_, none) => none
  | (val, some vote) => if blockID = vote.blockID then some val.votingPower else none

/-- The powers of the validators whose precommit is for the block. -/
def powersFor (blockID : BlockID) (validators : List (Validator PubKey Address))
    (precommits : List (Option (Vote Signature Address))) : List ℤ :=
  (validators.zip precommits).filterMap (powerFor blockID)

/-- Every vote is a valid one of the validator at its index, all in one round, and those for the
block are of validators with more than two thirds of the power. -/
structure Justified (valSet : ValidatorSet PubKey Address) (commit : Commit Signature Address) :
    Prop where
  size : commit.precommits.length = valSet.size
  votes : ∃ round, ∀ pair ∈ valSet.validators.zip commit.precommits, ∀ vote, pair.2 = some vote →
    ValidVote crypto wire chainID height round pair.1 vote
  power : 2 * (powers valSet.validators).sum <
    3 * (powersFor blockID valSet.validators commit.precommits).sum

end Specification

section Tally

variable {crypto : Crypto PubKey Signature Address} {wire : Wire PubKey Signature Address}
  {valSet : ValidatorSet PubKey Address} {chainID : String} {blockID : BlockID} {height round : ℤ}

theorem checkPrecommit_eq_ok_iff {index : ℕ} {val : Validator PubKey Address}
    {precommit : Vote Signature Address} {counted : Option ℤ}
    (hval : valSet.getByIndex index = some val) :
    checkPrecommit crypto wire valSet chainID blockID height round index precommit = .ok counted ↔
      ValidVote crypto wire chainID height round val precommit ∧
        powerFor blockID (val, some precommit) = counted := by
  unfold checkPrecommit
  rw [hval]
  constructor
  · intro hok
    rw [Results.ite_error_eq_ok_iff, Results.ite_error_eq_ok_iff, Results.ite_error_eq_ok_iff]
      at hok
    obtain ⟨hheight, hround, htype, hok⟩ := hok
    dsimp only at hok
    rw [Results.ite_error_eq_ok_iff] at hok
    obtain ⟨hkey, hok⟩ := hok
    split at hok
    next hsignature =>
      exact ⟨⟨not_not.mp hheight, not_not.mp hround, not_not.mp htype,
        Bool.eq_false_of_not_eq_true hkey, hsignature⟩, Except.ok.inj hok⟩
    next => cases hok
  · intro ⟨hvalid, hcounted⟩
    simp only [hvalid.height, hvalid.round, hvalid.type, hvalid.key, hvalid.signature, ne_eq,
      not_true_eq_false, if_false, if_true, Bool.false_eq_true]
    rw [← hcounted]
    rfl

/-- The loop returns when every vote is valid, and then with the wrapped sum of the powers. -/
theorem tallyPrecommits_eq_ok_iff {index : ℕ} {validators : List (Validator PubKey Address)}
    {precommits : List (Option (Vote Signature Address))} {start tallied : ℤ}
    (hvalidators : valSet.validators.drop index = validators)
    (hlength : validators.length = precommits.length) :
    tallyPrecommits crypto wire valSet chainID blockID height round index precommits start =
        .ok tallied ↔
      (∀ pair ∈ validators.zip precommits, ∀ vote, pair.2 = some vote →
        ValidVote crypto wire chainID height round pair.1 vote) ∧
      Int64.accumulate start (powersFor blockID validators precommits) = tallied := by
  induction precommits generalizing index validators start with
  | nil =>
    have hempty := List.length_eq_zero_iff.mp hlength
    subst hempty
    simp [tallyPrecommits, powersFor, Int64.accumulate]
  | cons precommit precommits ih =>
    cases validators with
    | nil => cases hlength
    | cons val validators =>
      have hnext : valSet.validators.drop (index + 1) = validators := by
        rw [← List.drop_drop, hvalidators, List.drop_one, List.tail_cons]
      have hget : valSet.getByIndex index = some val := by
        unfold ValidatorSet.getByIndex
        rw [← List.head?_drop, hvalidators, List.head?_cons]
      have htail := Nat.succ.inj hlength
      unfold powersFor at ih ⊢
      rw [List.zip_cons_cons, List.forall_mem_cons]
      cases precommit with
      | none =>
        have hskip : powerFor blockID (val, (none : Option (Vote Signature Address))) = none := rfl
        rw [tallyPrecommits, ih hnext htail, List.filterMap_cons_none hskip]
        simp
      | some vote =>
        unfold tallyPrecommits
        rw [Results.bind_eq_ok_iff]
        simp only [checkPrecommit_eq_ok_iff hget, ih hnext htail, Option.some.injEq, forall_eq']
        cases hpower : powerFor blockID (val, some vote) with
        | none =>
          rw [List.filterMap_cons_none hpower]
          simp [and_assoc]
        | some power =>
          rw [List.filterMap_cons_some hpower]
          simp [Int64.accumulate, and_assoc]

end Tally

section Exact

variable {validators : List (Validator PubKey Address)} {blockID : BlockID}
  {precommits : List (Option (Vote Signature Address))}

theorem powersFor_sublist :
    (powersFor blockID validators precommits).Sublist (powers validators) := by
  induction validators generalizing precommits with
  | nil => exact List.Sublist.refl _
  | cons val validators ih =>
    cases precommits with
    | nil => exact List.nil_sublist _
    | cons precommit precommits =>
      unfold powersFor powers at *
      rw [List.zip_cons_cons, List.map_cons]
      cases hpower : powerFor blockID (val, precommit) with
      | none =>
        rw [List.filterMap_cons_none hpower]
        exact ih.cons _
      | some power =>
        have hval : power = val.votingPower := by
          unfold powerFor at hpower
          split at hpower
          next => cases hpower
          next heq =>
            cases heq
            split at hpower
            next => exact (Option.some.inj hpower).symm
            next => cases hpower
        rw [List.filterMap_cons_some hpower, hval]
        exact ih.cons_cons _

theorem exists_vote_of_powersFor_ne_nil (hne : powersFor blockID validators precommits ≠ []) :
    ∃ vote, some vote ∈ precommits := by
  obtain ⟨power, hpower⟩ := List.exists_mem_of_ne_nil _ hne
  obtain ⟨⟨val, precommit⟩, hpair, hfor⟩ := List.mem_filterMap.mp hpower
  cases precommit with
  | none => cases hfor
  | some vote => exact ⟨vote, (List.of_mem_zip hpair).2⟩

variable {valSet : ValidatorSet PubKey Address}

theorem powers_nonneg (hnonneg : ∀ v ∈ validators, 0 ≤ v.votingPower) :
    ∀ power ∈ powers validators, 0 ≤ power := by
  intro power hpower
  obtain ⟨v, hv, rfl⟩ := List.mem_map.mp hpower
  exact hnonneg v hv

theorem totalVotingPower_eq_sum (hnonneg : ∀ v ∈ valSet.validators, 0 ≤ v.votingPower)
    (hfits : 2 * (powers valSet.validators).sum < 2 ^ 63) :
    0 ≤ (powers valSet.validators).sum ∧
      valSet.totalVotingPower = (powers valSet.validators).sum := by
  have hpowers := powers_nonneg hnonneg
  have hsum := List.sum_nonneg hpowers
  refine ⟨hsum, ?_⟩
  rw [valSet.totalVotingPower_eq, Int64.accumulate_eq hpowers le_rfl (by omega), zero_add]

theorem twoThirds_eq_ediv (hnonneg : ∀ v ∈ valSet.validators, 0 ≤ v.votingPower)
    (hfits : 2 * (powers valSet.validators).sum < 2 ^ 63) :
    twoThirds valSet = 2 * (powers valSet.validators).sum / 3 := by
  obtain ⟨htotal, htotalEq⟩ := totalVotingPower_eq_sum hnonneg hfits
  unfold twoThirds
  rw [htotalEq, Int64.wrap_of_fits (by omega) (by omega), Int.tdiv_eq_ediv_of_nonneg (by omega),
    mul_comm]

theorem twoThirds_lt_accumulate_iff (hnonneg : ∀ v ∈ valSet.validators, 0 ≤ v.votingPower)
    (hfits : 2 * (powers valSet.validators).sum < 2 ^ 63) {tallied : List ℤ}
    (htallied : ∀ power ∈ tallied, 0 ≤ power)
    (hpart : tallied.sum ≤ (powers valSet.validators).sum) :
    twoThirds valSet < Int64.accumulate 0 tallied ↔
      2 * (powers valSet.validators).sum < 3 * tallied.sum := by
  obtain ⟨htotal, -⟩ := totalVotingPower_eq_sum hnonneg hfits
  rw [twoThirds_eq_ediv hnonneg hfits, Int64.accumulate_eq htallied le_rfl (by omega), zero_add]
  omega

theorem twoThirds_lt_tally_iff (hnonneg : ∀ v ∈ valSet.validators, 0 ≤ v.votingPower)
    (hfits : 2 * (powers valSet.validators).sum < 2 ^ 63) :
    twoThirds valSet < Int64.accumulate 0 (powersFor blockID valSet.validators precommits) ↔
      2 * (powers valSet.validators).sum <
        3 * (powersFor blockID valSet.validators precommits).sum := by
  have hpowers := powers_nonneg hnonneg
  apply twoThirds_lt_accumulate_iff hnonneg hfits
  · exact fun power hpower ↦ hpowers power (powersFor_sublist.subset hpower)
  · exact powersFor_sublist.sum_le_sum hpowers

end Exact

section Correct

variable {crypto : Crypto PubKey Signature Address} {wire : Wire PubKey Signature Address}
  {valSet : ValidatorSet PubKey Address} {chainID : String} {blockID : BlockID} {height : ℤ}
  {commit : Commit Signature Address}

/-- Every precommit of a commit of the right size stands next to a validator. -/
theorem exists_mem_zip (hsize : commit.precommits.length = valSet.size)
    {precommit : Option (Vote Signature Address)} (hmem : precommit ∈ commit.precommits) :
    ∃ val, (val, precommit) ∈ valSet.validators.zip commit.precommits := by
  obtain ⟨index, hindex, hget⟩ := List.getElem_of_mem hmem
  have hval : index < valSet.validators.length := lt_of_lt_of_eq hindex hsize
  refine ⟨valSet.validators[index], ?_⟩
  rw [← hget, ← List.getElem_zip (h := by simp; omega)]
  exact List.getElem_mem _

theorem verifyCommit_eq_ok_iff_checks :
    verifyCommit crypto wire valSet chainID blockID height (some commit) = .ok () ↔
      commit.precommits.length = valSet.size ∧
        (commit.height : Fallible (CommitError Signature Address) ℤ) = .ok height ∧
        ∃ round, (commit.round : Fallible (CommitError Signature Address) ℤ) = .ok round ∧
          (∀ pair ∈ valSet.validators.zip commit.precommits, ∀ vote, pair.2 = some vote →
            ValidVote crypto wire chainID height round pair.1 vote) ∧
          twoThirds valSet <
            Int64.accumulate 0 (powersFor blockID valSet.validators commit.precommits) := by
  unfold verifyCommit
  dsimp only
  split
  next hsize =>
    refine ⟨fun h ↦ (by cases h), fun h ↦ absurd h.1.symm hsize⟩
  next hsize =>
    have hlength : valSet.validators.length = commit.precommits.length := not_not.mp hsize
    rw [Results.bind_eq_ok_iff]
    constructor
    · intro ⟨commitHeight, hheight, hrest⟩
      split at hrest
      next => cases hrest
      next hsame =>
        rw [Results.bind_eq_ok_iff] at hrest
        obtain ⟨round, hround, hrest⟩ := hrest
        rw [Results.bind_eq_ok_iff] at hrest
        obtain ⟨tallied, htally, hrest⟩ := hrest
        obtain ⟨hvotes, rfl⟩ := (tallyPrecommits_eq_ok_iff (List.drop_zero) hlength).mp htally
        split at hrest
        next hpower =>
          exact ⟨hlength.symm, (not_not.mp hsame) ▸ hheight, round, hround, hvotes, hpower⟩
        next => cases hrest
    · intro ⟨_, hheight, round, hround, hvotes, hpower⟩
      refine ⟨height, hheight, ?_⟩
      rw [if_neg (not_not.mpr rfl), Results.bind_eq_ok_iff]
      refine ⟨round, hround, ?_⟩
      rw [Results.bind_eq_ok_iff]
      exact ⟨_, (tallyPrecommits_eq_ok_iff (List.drop_zero) hlength).mpr ⟨hvotes, rfl⟩,
        if_pos hpower⟩

/-- `VerifyCommit` accepts exactly the justified commits. That addresses are distinct plays no part,
and a commit without any vote is not justified. -/
theorem verifyCommit_eq_ok_iff_justified (hnonneg : ∀ v ∈ valSet.validators, 0 ≤ v.votingPower)
    (hfits : 2 * (powers valSet.validators).sum < 2 ^ 63) :
    verifyCommit crypto wire valSet chainID blockID height (some commit) = .ok () ↔
      Justified crypto wire chainID blockID height valSet commit := by
  rw [verifyCommit_eq_ok_iff_checks]
  simp only [twoThirds_lt_tally_iff hnonneg hfits]
  constructor
  · intro ⟨hsize, _, round, _, hvotes, hpower⟩
    exact ⟨hsize, ⟨round, hvotes⟩, hpower⟩
  · intro ⟨hsize, ⟨round, hvotes⟩, hpower⟩
    have htotal := (totalVotingPower_eq_sum hnonneg hfits).1
    have hne : powersFor blockID valSet.validators commit.precommits ≠ [] := by
      intro hnil
      rw [hnil, List.sum_nil] at hpower
      omega
    have hvote : commit.HasVote := exists_vote_of_powersFor_ne_nil hne
    cases hfirst : commit.firstPrecommit with
    | none => exact absurd hvote (Commit.firstPrecommit_eq_none_iff.mp hfirst)
    | some vote =>
      -- the first vote fixes the height and the round of the commit, and it is a valid one
      obtain ⟨val, hpair⟩ := exists_mem_zip hsize (Commit.mem_of_firstPrecommit hfirst)
      have hvalid := hvotes _ hpair vote rfl
      refine ⟨hsize, ?_, round, ?_, hvotes, hpower⟩
      · rw [Commit.height, Commit.firstField_of_firstPrecommit hfirst, hvalid.height]
      · rw [Commit.round, Commit.firstField_of_firstPrecommit hfirst, hvalid.round]

end Correct

/-! ## What makes it panic -/

section Panics

variable {crypto : Crypto PubKey Signature Address} {wire : Wire PubKey Signature Address}
  {valSet : ValidatorSet PubKey Address} {chainID : String} {blockID : BlockID} {height round : ℤ}

theorem survives_checkPrecommit {index : ℕ} {val : Validator PubKey Address}
    {precommit : Vote Signature Address} (hval : valSet.getByIndex index = some val)
    (hkey : crypto.empty val.pubKey = false) :
    Survives
      (checkPrecommit crypto wire valSet chainID blockID height round index precommit) := by
  unfold checkPrecommit
  rw [hval]
  dsimp only
  rw [hkey, if_neg Bool.false_ne_true]
  iterate 3 refine survives_ite_error_iff.mpr fun _ ↦ ?_
  split
  · exact survives_ok _
  · exact survives_error _

theorem survives_tallyPrecommits (hkeys : ∀ v ∈ valSet.validators, crypto.empty v.pubKey = false)
    {index : ℕ} {precommits : List (Option (Vote Signature Address))} {start : ℤ}
    (hsize : index + precommits.length = valSet.size) :
    Survives
      (tallyPrecommits crypto wire valSet chainID blockID height round index precommits start) := by
  induction precommits generalizing index start with
  | nil => exact survives_ok start
  | cons precommit precommits ih =>
    rw [List.length_cons] at hsize
    cases precommit with
    | none => exact ih (by omega)
    | some vote =>
      have hindex : index < valSet.validators.length := by
        unfold ValidatorSet.size at hsize
        omega
      unfold tallyPrecommits
      rw [survives_bind_iff]
      refine ⟨survives_checkPrecommit (List.getElem?_eq_getElem hindex)
        (hkeys _ (List.getElem_mem hindex)), fun counted _ ↦ ih (by omega)⟩

/-- The commit can be verified: it is there, and if it has as many precommits as there are
validators, one of them is a vote. -/
def CommitSafe (size : ℕ) (commit : Option (Commit Signature Address)) : Prop :=
  ∃ found, commit = some found ∧ (found.precommits.length = size → found.FieldSafe)

theorem survives_verifyCommit_iff (hkeys : ∀ v ∈ valSet.validators, crypto.empty v.pubKey = false)
    {commit : Option (Commit Signature Address)} :
    Survives (verifyCommit crypto wire valSet chainID blockID height commit) ↔
      CommitSafe valSet.size commit := by
  unfold CommitSafe
  cases commit with
  | none => simp [verifyCommit]
  | some commit =>
    simp only [Option.some.injEq, exists_eq_left']
    unfold verifyCommit
    dsimp only
    by_cases hsize : valSet.size = commit.precommits.length
    · rw [if_neg (not_not.mpr hsize), survives_bind_iff, Commit.height,
        Commit.survives_firstField_iff]
      refine ⟨fun h _ ↦ h.1, fun h ↦ ⟨h hsize.symm, fun commitHeight _ ↦ ?_⟩⟩
      split
      next => exact survives_error _
      next =>
        rw [survives_bind_iff, Commit.round, Commit.survives_firstField_iff]
        refine ⟨h hsize.symm, fun round _ ↦ ?_⟩
        rw [survives_bind_iff]
        refine ⟨survives_tallyPrecommits hkeys (by omega), fun tallied _ ↦ ?_⟩
        split
        next => exact survives_ok _
        next => exact survives_error _
    · rw [if_pos hsize]
      exact ⟨fun _ hsame ↦ absurd hsame.symm hsize, fun _ ↦ survives_error _⟩

end Panics

/-- Four validators of power one. -/
def fourOfOne : ValidatorSet UInt8 ℕ :=
  .of [⟨1, 1, 1, 0⟩, ⟨2, 2, 1, 0⟩, ⟨3, 3, 1, 0⟩, ⟨4, 4, 1, 0⟩]

/-- A precommit of height 7 and round 1. -/
def samplePrecommit (blockID : BlockID) (key : UInt8) : Vote UInt8 ℕ :=
  ⟨key.toNat, key.toNat - 1, 7, 1, 0, voteTypePrecommit, blockID, key⟩

/-- Three validators of four vote for the block, the other one for none. -/
def threeOfFour : Commit UInt8 ℕ :=
  let blockID : BlockID := ⟨[9], ⟨1, [9]⟩⟩
  ⟨blockID, [samplePrecommit blockID 1, samplePrecommit .zero 2, samplePrecommit blockID 3,
    samplePrecommit blockID 4].map some, 0⟩

theorem threeOfFour_justified :
    Justified ParseTx.sampleCrypto sampleWire "chain" ⟨[9], ⟨1, [9]⟩⟩ 7 fourOfOne threeOfFour :=
  (verifyCommit_eq_ok_iff_justified (by decide) (by decide)).mp (by decide)

end LkChain.Tendermint.VerifyCommit
