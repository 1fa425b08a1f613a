import LkChain.Tendermint.VerifyCommit
import Mathlib.Algebra.Order.BigOperators.Group.List

/-!
# A commit under another validator set

`ValidatorSet.VerifyCommitAny` looks at the commit of a new validator set with the eyes of a known
one: it finds the voters by their addresses in the known set, counts each of them once, and asks for
two thirds of the power in both sets. A vote of an unknown address is skipped, whatever its
signature.
-/

namespace LkChain.Lite.VerifyCommitAny

open Foundation Foundation.Stops
open Tendermint Tendermint.Types ValSet
open VerifyCommit (twoThirds)
open Validators.ParseTx (Crypto sampleCrypto)

variable {PubKey Signature Address : Type}

/-- The errors of `VerifyCommitAny`. -/
inductive AnyError (Signature Address : Type) where
  | wrongSetSize (size precommits : ℕ)
  | wrongHeight (expected found : ℤ)
  | blocksDontMatch (round found : ℤ)
  | wrongRound (expected found : ℤ)
  | notPrecommit (index : ℕ)
  | invalidSignature (precommit : Vote Signature Address)
  | insufficientOldPower (got needed : ℤ)
  | insufficientCurPower (got needed : ℤ)
deriving DecidableEq

/-- The sums of the loop, and the validators that have been seen. -/
structure Tally where
  oldVotingPower : ℤ
  newVotingPower : ℤ
  seen : List ℕ

section Program

variable [DecidableEq PubKey] [LinearOrder Address] (crypto : Crypto PubKey Signature Address)
  (wire : Wire PubKey Signature Address) (valSet newSet : ValidatorSet PubKey Address)
  (chainID : String) (blockID : BlockID) (height : ℤ)

/-- The body of the loop on a vote. A wrong height is reported with the rounds. -/
def countVote (round : ℤ) (index : ℕ) (precommit : Vote Signature Address) (tally : Tally) :
    Fallible (AnyError Signature Address) Tally :=
  if precommit.height ≠ height then .error (.error (.blocksDontMatch round precommit.round))
  else if precommit.round ≠ round then .error (.error (.wrongRound round precommit.round))
  else if precommit.type ≠ voteTypePrecommit then .error (.error (.notPrecommit index))
  else if blockID ≠ precommit.blockID then .ok tally
  else
    match valSet.getByAddress precommit.validatorAddress with
    | none => .ok tally
    | some (vi, ov) =>
      if vi ∈ tally.seen then .ok tally
      else if crypto.empty ov.pubKey then .error (.panic .nilDereference)
      else if !crypto.verifyBytes ov.pubKey (wire.signBytes chainID precommit)
          precommit.signature then .error (.error (.invalidSignature precommit))
      else
        match newSet.getByIndex index with
        | none => .error (.panic .nilDereference)
        | some cv =>
          if crypto.empty cv.pubKey then .error (.panic .nilDereference)
          else .ok
            { oldVotingPower := Int64.wrap (tally.oldVotingPower + ov.votingPower)
              newVotingPower :=
                if cv.pubKey = ov.pubKey then Int64.wrap (tally.newVotingPower + cv.votingPower)
                else tally.newVotingPower
              seen := tally.seen ++ [vi] }

/-- The loop over the precommits, from an index on. -/
def countVotes (round : ℤ) : ℕ → List (Option (Vote Signature Address)) → Tally →
    Fallible (AnyError Signature Address) Tally
  | _, [], tally => .ok tally
  | index, none :: rest, tally => countVotes round (index + 1) rest tally
  | index, some precommit :: rest, tally => do
    let tally ←
      countVote crypto wire valSet newSet chainID blockID height round index precommit tally
    countVotes round (index + 1) rest tally

def verifyCommitAny (commit : Commit Signature Address) :
    Fallible (AnyError Signature Address) Unit :=
  if newSet.size ≠ commit.precommits.length then
    .error (.error (.wrongSetSize newSet.size commit.precommits.length))
  else do
    let commitHeight ← commit.height
    if height ≠ commitHeight then .error (.error (.wrongHeight height commitHeight))
    else
      let round ← commit.round
      let tally ← countVotes crypto wire valSet newSet chainID blockID height round 0
        commit.precommits ⟨0, 0, []⟩
      if tally.oldVotingPower ≤ twoThirds valSet then
        .error (.error (.insufficientOldPower tally.oldVotingPower
          (Int64.wrap (twoThirds valSet + 1))))
      else if tally.newVotingPower ≤ twoThirds newSet then
        .error (.error (.insufficientCurPower tally.newVotingPower
          (Int64.wrap (twoThirds newSet + 1))))
      else .ok ()

end Program

/-! ## Who has signed -/

section Signed

variable (crypto : Crypto PubKey Signature Address) (wire : Wire PubKey Signature Address)
  (chainID : String) (blockID : BlockID) (height : ℤ)

/-- The validator has signed a precommit for the block that is in the commit. -/
def HasSigned (precommits : List (Option (Vote Signature Address)))
    (val : Validator PubKey Address) : Prop :=
  ∃ vote, some vote ∈ precommits ∧ vote.blockID = blockID ∧ vote.height = height ∧
    vote.type = voteTypePrecommit ∧ vote.validatorAddress = val.address ∧
    crypto.empty val.pubKey = false ∧
    crypto.verifyBytes val.pubKey (wire.signBytes chainID vote) vote.signature = true

/-- The power at an index, zero where there is no validator. -/
def powerAt (valSet : ValidatorSet PubKey Address) (index : ℕ) : ℤ :=
  (valSet.getByIndex index).elim 0 Validator.votingPower

/-- Different validators of a set who have signed. -/
structure Signers (valSet : ValidatorSet PubKey Address)
    (precommits : List (Option (Vote Signature Address))) (indices : List ℕ) : Prop where
  nodup : indices.Nodup
  signed : ∀ index ∈ indices, ∃ val, valSet.getByIndex index = some val ∧
    HasSigned crypto wire chainID blockID height precommits val

end Signed

theorem accumulate_concat (acc power : ℤ) (powers : List ℤ) :
    Int64.accumulate acc (powers ++ [power]) =
      Int64.wrap (Int64.accumulate acc powers + power) := by
  induction powers generalizing acc with
  | nil => rfl
  | cons first rest ih => exact ih _

theorem accumulate_powers_concat (validators : List (Validator PubKey Address))
    (val : Validator PubKey Address) :
    Int64.accumulate 0 (powers (validators ++ [val])) =
      Int64.wrap (Int64.accumulate 0 (powers validators) + val.votingPower) := by
  unfold powers
  rw [List.map_append, List.map_singleton, accumulate_concat]

/-- A precommit that was counted: the validator that has signed it with its index in the known set,
and the index of the precommit, which is an index in the new set. -/
structure Ballot (PubKey Address : Type) where
  seenAt : ℕ
  signer : Validator PubKey Address
  index : ℕ

section Ballots

variable (crypto : Crypto PubKey Signature Address) (wire : Wire PubKey Signature Address)
  (chainID : String) (blockID : BlockID) (height round : ℤ)

/-- The precommit is one of this height and round for the block, and the signature is valid. -/
structure SignedVote (signer : Validator PubKey Address) (vote : Vote Signature Address) :
    Prop where
  blockID : vote.blockID = blockID
  height : vote.height = height
  round : vote.round = round
  type : vote.type = voteTypePrecommit
  address : vote.validatorAddress = signer.address
  key : crypto.empty signer.pubKey = false
  signature : crypto.verifyBytes signer.pubKey (wire.signBytes chainID vote) vote.signature = true

/-- The precommit of the ballot is in the commit and was signed by its validator. -/
def Ballot.Signed (precommits : List (Option (Vote Signature Address)))
    (ballot : Ballot PubKey Address) : Prop :=
  ∃ vote, precommits[ballot.index]? = some (some vote) ∧
    SignedVote crypto wire chainID blockID height round ballot.signer vote

/-- The validator of the new set at the index of the precommit, if it has the key of the signer. -/
def Ballot.counterpart [DecidableEq PubKey] (newSet : ValidatorSet PubKey Address)
    (ballot : Ballot PubKey Address) : Option (Validator PubKey Address) :=
  (newSet.getByIndex ballot.index).filter fun cv ↦ cv.pubKey = ballot.signer.pubKey

end Ballots

section Loop

variable [DecidableEq PubKey] {crypto : Crypto PubKey Signature Address}
  {wire : Wire PubKey Signature Address} {valSet newSet : ValidatorSet PubKey Address}
  {chainID : String} {blockID : BlockID} {height round : ℤ}
  {all : List (Option (Vote Signature Address))}

/-- What is known of the sums before an index: they are those of the ballots, which are of different
validators of the known set, and at different indices below this one. -/
structure Counted (crypto : Crypto PubKey Signature Address) (wire : Wire PubKey Signature Address)
    (valSet newSet : ValidatorSet PubKey Address) (chainID : String) (blockID : BlockID)
    (height round : ℤ) (all : List (Option (Vote Signature Address))) (index : ℕ) (tally : Tally)
    (ballots : List (Ballot PubKey Address)) : Prop where
  seen : tally.seen = ballots.map Ballot.seenAt
  distinct : tally.seen.Nodup
  increasing : (ballots.map Ballot.index).Pairwise (· < ·)
  below : ∀ ballot ∈ ballots, ballot.index < index
  known : ∀ ballot ∈ ballots, valSet.getByIndex ballot.seenAt = some ballot.signer
  signed : ∀ ballot ∈ ballots, ballot.Signed crypto wire chainID blockID height round all
  oldPower : tally.oldVotingPower = Int64.accumulate 0 (powers (ballots.map Ballot.signer))
  newPower : tally.newVotingPower =
    Int64.accumulate 0 (powers (ballots.filterMap (Ballot.counterpart newSet)))

theorem counted_nil : Counted crypto wire valSet newSet chainID blockID height round all 0
    ⟨0, 0, []⟩ [] where
  seen := rfl
  distinct := List.nodup_nil
  increasing := List.Pairwise.nil
  below := List.forall_mem_nil _
  known := List.forall_mem_nil _
  signed := List.forall_mem_nil _
  oldPower := rfl
  newPower := rfl

theorem Counted.mono {index later : ℕ} {tally : Tally} {ballots : List (Ballot PubKey Address)}
    (hcounted : Counted crypto wire valSet newSet chainID blockID height round all index tally
      ballots) (hlater : index ≤ later) :
    Counted crypto wire valSet newSet chainID blockID height round all later tally ballots :=
  { hcounted with below := fun ballot hballot ↦ (hcounted.below ballot hballot).trans_le hlater }

theorem Counted.signers {index : ℕ} {tally : Tally} {ballots : List (Ballot PubKey Address)}
    (hcounted : Counted crypto wire valSet newSet chainID blockID height round all index tally
      ballots) : Signers crypto wire chainID blockID height valSet all tally.seen where
  nodup := hcounted.distinct
  signed := by
    intro seen hseen
    rw [hcounted.seen] at hseen
    obtain ⟨ballot, hballot, rfl⟩ := List.mem_map.mp hseen
    obtain ⟨vote, hget, hsigned⟩ := hcounted.signed ballot hballot
    exact ⟨ballot.signer, hcounted.known ballot hballot, vote, List.mem_of_getElem? hget,
      hsigned.blockID, hsigned.height, hsigned.type, hsigned.address, hsigned.key,
      hsigned.signature⟩

variable [LinearOrder Address]

/-- A vote changes nothing, or it is the first one of a validator who has signed it. -/
theorem countVote_cases {index : ℕ} {precommit : Vote Signature Address} {tally after : Tally}
    (hget : all[index]? = some (some precommit))
    (hvote : countVote crypto wire valSet newSet chainID blockID height round index precommit
      tally = .ok after) :
    after = tally ∨ ∃ ballot : Ballot PubKey Address, ballot.index = index ∧
      ballot.seenAt ∉ tally.seen ∧ valSet.getByIndex ballot.seenAt = some ballot.signer ∧
      ballot.Signed crypto wire chainID blockID height round all ∧
      after.seen = tally.seen ++ [ballot.seenAt] ∧
      after.oldVotingPower = Int64.wrap (tally.oldVotingPower + ballot.signer.votingPower) ∧
      after.newVotingPower = (ballot.counterpart newSet).elim tally.newVotingPower
        fun cv ↦ Int64.wrap (tally.newVotingPower + cv.votingPower) := by
  unfold countVote at hvote
  rw [Results.ite_error_eq_ok_iff, Results.ite_error_eq_ok_iff, Results.ite_error_eq_ok_iff]
    at hvote
  obtain ⟨hheight, hround, htype, hvote⟩ := hvote
  by_cases hblock : blockID ≠ precommit.blockID
  · rw [if_pos hblock] at hvote
    exact .inl (Except.ok.inj hvote).symm
  rw [if_neg hblock] at hvote
  cases hfound : valSet.getByAddress precommit.validatorAddress with
  | none =>
    rw [hfound] at hvote
    exact .inl (Except.ok.inj hvote).symm
  | some found =>
    rw [hfound] at hvote
    dsimp only at hvote
    obtain ⟨hindex, haddress⟩ := getByIndex_of_getByAddress hfound
    by_cases hseen : found.1 ∈ tally.seen
    · rw [if_pos hseen] at hvote
      exact .inl (Except.ok.inj hvote).symm
    rw [if_neg hseen, Results.ite_error_eq_ok_iff, Results.ite_error_eq_ok_iff] at hvote
    obtain ⟨hempty, hverify, hvote⟩ := hvote
    have hsigned : SignedVote crypto wire chainID blockID height round found.2 precommit :=
      ⟨(not_not.mp hblock).symm, not_not.mp hheight, not_not.mp hround, not_not.mp htype,
        haddress.symm, Bool.eq_false_of_not_eq_true hempty, by simpa using hverify⟩
    cases hcurrent : newSet.getByIndex index with
    | none =>
      rw [hcurrent] at hvote
      cases hvote
    | some cv =>
      rw [hcurrent] at hvote
      dsimp only at hvote
      rw [Results.ite_error_eq_ok_iff] at hvote
      obtain ⟨-, hvote⟩ := hvote
      cases hvote
      refine .inr ⟨⟨found.1, found.2, index⟩, rfl, hseen, hindex, ⟨precommit, hget, hsigned⟩, rfl,
        rfl, ?_⟩
      unfold Ballot.counterpart
      rw [hcurrent, Option.filter_some]
      by_cases hkey : cv.pubKey = found.2.pubKey <;> simp [hkey]

theorem counted_of_countVote {index : ℕ} {precommit : Vote Signature Address} {tally after : Tally}
    {ballots : List (Ballot PubKey Address)} (hget : all[index]? = some (some precommit))
    (hcounted : Counted crypto wire valSet newSet chainID blockID height round all index tally
      ballots)
    (hvote : countVote crypto wire valSet newSet chainID blockID height round index precommit
      tally = .ok after) :
    ∃ ballots', Counted crypto wire valSet newSet chainID blockID height round all (index + 1) after
      ballots' := by
  cases countVote_cases hget hvote with
  | inl hsame =>
    rw [hsame]
    exact ⟨ballots, hcounted.mono (Nat.le_succ index)⟩
  | inr hnew =>
    obtain ⟨ballot, hindex, hfresh, hknown, hsigned, hseen, hold, hnewPower⟩ := hnew
    refine ⟨ballots ++ [ballot], ?_, ?_, ?_, ?_, ?_, ?_, ?_, ?_⟩
    · rw [hseen, hcounted.seen, List.map_append, List.map_singleton]
    · rw [hseen, List.nodup_append]
      refine ⟨hcounted.distinct, List.nodup_singleton _, ?_⟩
      intro seen hmem other hother hsame
      rw [hsame, List.mem_singleton.mp hother] at hmem
      exact hfresh hmem
    · rw [List.map_append, List.map_singleton, List.pairwise_append]
      refine ⟨hcounted.increasing, List.pairwise_singleton _ _, ?_⟩
      intro before hbefore last hlast
      obtain ⟨earlier, hearlier, rfl⟩ := List.mem_map.mp hbefore
      rw [List.mem_singleton.mp hlast, hindex]
      exact hcounted.below earlier hearlier
    · rw [List.forall_mem_append, List.forall_mem_singleton, hindex]
      exact ⟨fun earlier hearlier ↦ Nat.lt_succ_of_lt (hcounted.below earlier hearlier),
        Nat.lt_succ_self index⟩
    · rw [List.forall_mem_append, List.forall_mem_singleton]
      exact ⟨hcounted.known, hknown⟩
    · rw [List.forall_mem_append, List.forall_mem_singleton]
      exact ⟨hcounted.signed, hsigned⟩
    · rw [hold, hcounted.oldPower, List.map_append, List.map_singleton, accumulate_powers_concat]
    · rw [hnewPower, List.filterMap_append]
      cases hcounterpart : ballot.counterpart newSet with
      | none =>
        rw [List.filterMap_cons_none hcounterpart, List.filterMap_nil, List.append_nil]
        exact hcounted.newPower
      | some cv =>
        rw [List.filterMap_cons_some hcounterpart, List.filterMap_nil, accumulate_powers_concat,
          Option.elim_some, hcounted.newPower]

theorem counted_of_countVotes {index : ℕ} {precommits : List (Option (Vote Signature Address))}
    {tally after : Tally} {ballots : List (Ballot PubKey Address)}
    (hdrop : all.drop index = precommits)
    (hcounted : Counted crypto wire valSet newSet chainID blockID height round all index tally
      ballots)
    (hvotes : countVotes crypto wire valSet newSet chainID blockID height round index precommits
      tally = .ok after) :
    ∃ last ballots', Counted crypto wire valSet newSet chainID blockID height round all last after
      ballots' := by
  induction precommits generalizing index tally ballots with
  | nil =>
    cases hvotes
    exact ⟨index, ballots, hcounted⟩
  | cons precommit precommits ih =>
    have hget : all[index]? = some precommit := by
      rw [← List.head?_drop, hdrop, List.head?_cons]
    have hnext : all.drop (index + 1) = precommits := by
      rw [← List.drop_drop, hdrop, List.drop_one, List.tail_cons]
    cases precommit with
    | none => exact ih hnext (hcounted.mono (Nat.le_succ index)) hvotes
    | some vote =>
      unfold countVotes at hvotes
      rw [Results.bind_eq_ok_iff] at hvotes
      obtain ⟨next, hvote, hrest⟩ := hvotes
      obtain ⟨ballots', hcounted'⟩ := counted_of_countVote hget hcounted hvote
      exact ih hnext hcounted' hrest

/-- When `VerifyCommitAny` returns nil, the ballots have more than two thirds of the power of the
known set, and their counterparts more than two thirds of the power of the new set, in 64-bit
words. -/
theorem counted_of_verifyCommitAny {commit : Commit Signature Address}
    (hok : verifyCommitAny crypto wire valSet newSet chainID blockID height commit = .ok ()) :
    ∃ round last tally ballots, Counted crypto wire valSet newSet chainID blockID height round
        commit.precommits last tally ballots ∧
      twoThirds valSet < tally.oldVotingPower ∧ twoThirds newSet < tally.newVotingPower := by
  unfold verifyCommitAny at hok
  rw [Results.ite_error_eq_ok_iff, Results.bind_eq_ok_iff] at hok
  obtain ⟨-, commitHeight, -, hok⟩ := hok
  rw [Results.ite_error_eq_ok_iff] at hok
  simp only [Results.bind_eq_ok_iff] at hok
  obtain ⟨-, round, -, tally, htally, hok⟩ := hok
  rw [Results.ite_error_eq_ok_iff, Results.ite_error_eq_ok_iff] at hok
  obtain ⟨hold, hnew, -⟩ := hok
  obtain ⟨last, ballots, hcounted⟩ := counted_of_countVotes List.drop_zero counted_nil htally
  exact ⟨round, last, tally, ballots, hcounted, not_le.mp hold, not_le.mp hnew⟩

/-- When `VerifyCommitAny` returns nil, different validators of the known set have signed the block,
with more than two thirds of its power in 64-bit words. -/
theorem signers_of_verifyCommitAny {commit : Commit Signature Address}
    (hok : verifyCommitAny crypto wire valSet newSet chainID blockID height commit = .ok ()) :
    ∃ signers, Signers crypto wire chainID blockID height valSet commit.precommits signers ∧
      twoThirds valSet < Int64.accumulate 0 (signers.map (powerAt valSet)) := by
  obtain ⟨round, last, tally, ballots, hcounted, hold, -⟩ := counted_of_verifyCommitAny hok
  refine ⟨tally.seen, hcounted.signers, ?_⟩
  have hpowers : tally.seen.map (powerAt valSet) = powers (ballots.map Ballot.signer) := by
    rw [hcounted.seen, powers, List.map_map, List.map_map]
    apply List.map_congr_left
    intro ballot hballot
    rw [Function.comp_apply, powerAt, hcounted.known ballot hballot, Option.elim_some,
      Function.comp_apply]
  rw [hpowers, ← hcounted.oldPower]
  exact hold

end Loop

/-! ## Exact sums -/

section Exact

variable {valSet : ValidatorSet PubKey Address}

theorem map_powerAt_range :
    (List.range valSet.size).map (powerAt valSet) = powers valSet.validators := by
  apply List.ext_getElem
  · rw [List.length_map, List.length_range]
    exact (List.length_map _).symm
  · intro index hleft hright
    have hindex : index < valSet.validators.length := (List.length_map _) ▸ hright
    rw [List.getElem_map, List.getElem_range, powerAt, ValidatorSet.getByIndex,
      List.getElem?_eq_getElem hindex, Option.elim_some]
    exact (List.getElem_map _).symm

theorem sum_powerAt_le (hnonneg : ∀ v ∈ valSet.validators, 0 ≤ v.votingPower) {indices : List ℕ}
    (hnodup : indices.Nodup) (hbound : ∀ index ∈ indices, index < valSet.size) :
    (indices.map (powerAt valSet)).sum ≤ (powers valSet.validators).sum := by
  have hsubset : indices ⊆ List.range valSet.size := fun index hindex ↦
    List.mem_range.mpr (hbound index hindex)
  obtain ⟨part, hperm, hsublist⟩ := hnodup.subperm hsubset
  calc (indices.map (powerAt valSet)).sum
      = (part.map (powerAt valSet)).sum := (hperm.map _).sum_eq.symm
    _ ≤ ((List.range valSet.size).map (powerAt valSet)).sum := by
      apply (hsublist.map _).sum_le_sum
      rw [map_powerAt_range]
      exact VerifyCommit.powers_nonneg hnonneg
    _ = (powers valSet.validators).sum := by rw [map_powerAt_range]

/-- In a set whose power fits in a word, the sum and the threshold of the loop are exact. -/
theorem twoThirds_lt_signers_iff (hnonneg : ∀ v ∈ valSet.validators, 0 ≤ v.votingPower)
    (hfits : 2 * (powers valSet.validators).sum < 2 ^ 63) {indices : List ℕ}
    (hnodup : indices.Nodup) (hbound : ∀ index ∈ indices, index < valSet.size) :
    twoThirds valSet < Int64.accumulate 0 (indices.map (powerAt valSet)) ↔
      2 * (powers valSet.validators).sum < 3 * (indices.map (powerAt valSet)).sum := by
  apply VerifyCommit.twoThirds_lt_accumulate_iff hnonneg hfits
  · intro power hpower
    obtain ⟨index, hindex, rfl⟩ := List.mem_map.mp hpower
    apply VerifyCommit.powers_nonneg hnonneg
    rw [← map_powerAt_range]
    exact List.mem_map_of_mem (List.mem_range.mpr (hbound index hindex))
  · exact sum_powerAt_le hnonneg hnodup hbound

end Exact

/-! ## Both sets -/

section Sound

variable {valSet : ValidatorSet PubKey Address} {part : List (Validator PubKey Address)}

theorem index_eq_of_address_eq (hnodup : (valSet.validators.map Validator.address).Nodup)
    {index other : ℕ} {val found : Validator PubKey Address}
    (hval : valSet.getByIndex index = some val) (hfound : valSet.getByIndex other = some found)
    (haddress : val.address = found.address) : index = other := by
  have hindex : index < (valSet.validators.map Validator.address).length := by
    rw [List.length_map]
    exact (List.getElem?_eq_some_iff.mp hval).1
  apply (List.getElem?_inj hindex hnodup).mp
  rw [List.getElem?_map, List.getElem?_map]
  unfold ValidatorSet.getByIndex at hval hfound
  rw [hval, hfound, Option.map_some, Option.map_some, haddress]

/-- Validators of a set with different addresses have no more power than all of them. -/
theorem sum_powers_le (hnonneg : ∀ v ∈ valSet.validators, 0 ≤ v.votingPower)
    (hnodup : (part.map Validator.address).Nodup) (hsubset : part ⊆ valSet.validators) :
    (powers part).sum ≤ (powers valSet.validators).sum := by
  obtain ⟨rest, hperm, hsublist⟩ := hnodup.of_map.subperm hsubset
  calc (powers part).sum
      = (powers rest).sum := (hperm.map Validator.votingPower).sum_eq.symm
    _ ≤ (powers valSet.validators).sum :=
      (hsublist.map Validator.votingPower).sum_le_sum (VerifyCommit.powers_nonneg hnonneg)

theorem twoThirds_lt_powers_iff (hnonneg : ∀ v ∈ valSet.validators, 0 ≤ v.votingPower)
    (hfits : 2 * (powers valSet.validators).sum < 2 ^ 63)
    (hnodup : (part.map Validator.address).Nodup) (hsubset : part ⊆ valSet.validators) :
    twoThirds valSet < Int64.accumulate 0 (powers part) ↔
      2 * (powers valSet.validators).sum < 3 * (powers part).sum := by
  apply VerifyCommit.twoThirds_lt_accumulate_iff hnonneg hfits
  · exact VerifyCommit.powers_nonneg fun v hv ↦ hnonneg v (hsubset hv)
  · exact sum_powers_le hnonneg hnodup hsubset

variable [DecidableEq PubKey] {crypto : Crypto PubKey Signature Address}
  {wire : Wire PubKey Signature Address} {newSet : ValidatorSet PubKey Address}
  {chainID : String} {blockID : BlockID} {height round : ℤ}
  {all : List (Option (Vote Signature Address))} {index : ℕ} {tally : Tally}
  {ballots : List (Ballot PubKey Address)}

theorem Ballot.counterpart_eq_some {ballot : Ballot PubKey Address}
    {cv : Validator PubKey Address} (hcv : ballot.counterpart newSet = some cv) :
    newSet.getByIndex ballot.index = some cv ∧ cv.pubKey = ballot.signer.pubKey := by
  obtain ⟨hget, hkey⟩ := Option.filter_eq_some_iff.mp hcv
  exact ⟨hget, of_decide_eq_true hkey⟩

theorem Counted.nodup_signers
    (hcounted : Counted crypto wire valSet newSet chainID blockID height round all index tally
      ballots) (hnodup : (valSet.validators.map Validator.address).Nodup) :
    ((ballots.map Ballot.signer).map Validator.address).Nodup := by
  have hdistinct := hcounted.distinct
  rw [hcounted.seen, List.Nodup, List.pairwise_map] at hdistinct
  rw [List.map_map, List.Nodup, List.pairwise_map]
  apply hdistinct.imp_of_mem
  intro ballot other hballot hother hne haddress
  exact hne (index_eq_of_address_eq hnodup (hcounted.known ballot hballot)
    (hcounted.known other hother) haddress)

theorem Counted.nodup_counterparts
    (hcounted : Counted crypto wire valSet newSet chainID blockID height round all index tally
      ballots) (hnodup : (newSet.validators.map Validator.address).Nodup) :
    ((ballots.filterMap (Ballot.counterpart newSet)).map Validator.address).Nodup := by
  have hincreasing := hcounted.increasing
  rw [List.pairwise_map] at hincreasing
  rw [List.Nodup, List.pairwise_map, List.pairwise_filterMap]
  apply hincreasing.imp
  intro ballot other hlt cv hcv found hfound haddress
  exact hlt.ne (index_eq_of_address_eq hnodup (Ballot.counterpart_eq_some hcv).1
    (Ballot.counterpart_eq_some hfound).1 haddress)

/-- When `VerifyCommitAny` returns nil, different validators of the known set have signed precommits
of one round for the block, with more than two thirds of its power. Those of them that the new set
has at the index of their precommit, under the same key, are different as well and have more than
two thirds of the power of the new set. -/
theorem verifyCommitAny_sound [LinearOrder Address] {commit : Commit Signature Address}
    (hold : (valSet.validators.map Validator.address).Nodup)
    (hnew : (newSet.validators.map Validator.address).Nodup)
    (holdNonneg : ∀ v ∈ valSet.validators, 0 ≤ v.votingPower)
    (hnewNonneg : ∀ v ∈ newSet.validators, 0 ≤ v.votingPower)
    (holdFits : 2 * (powers valSet.validators).sum < 2 ^ 63)
    (hnewFits : 2 * (powers newSet.validators).sum < 2 ^ 63)
    (hok : verifyCommitAny crypto wire valSet newSet chainID blockID height commit = .ok ()) :
    ∃ round, ∃ ballots : List (Ballot PubKey Address),
      (∀ ballot ∈ ballots, ballot.signer ∈ valSet.validators ∧
        ballot.Signed crypto wire chainID blockID height round commit.precommits) ∧
      ((ballots.map Ballot.signer).map Validator.address).Nodup ∧
      2 * (powers valSet.validators).sum < 3 * (powers (ballots.map Ballot.signer)).sum ∧
      ((ballots.filterMap (Ballot.counterpart newSet)).map Validator.address).Nodup ∧
      2 * (powers newSet.validators).sum <
        3 * (powers (ballots.filterMap (Ballot.counterpart newSet))).sum := by
  obtain ⟨round, last, tally, ballots, hcounted, holdPower, hnewPower⟩ :=
    counted_of_verifyCommitAny hok
  have hsigners : ballots.map Ballot.signer ⊆ valSet.validators := by
    intro signer hsigner
    obtain ⟨ballot, hballot, rfl⟩ := List.mem_map.mp hsigner
    exact List.mem_of_getElem? (hcounted.known ballot hballot)
  have hcounterparts : ballots.filterMap (Ballot.counterpart newSet) ⊆ newSet.validators := by
    intro cv hcv
    obtain ⟨ballot, -, hcounterpart⟩ := List.mem_filterMap.mp hcv
    exact List.mem_of_getElem? (Ballot.counterpart_eq_some hcounterpart).1
  rw [hcounted.oldPower] at holdPower
  rw [hcounted.newPower] at hnewPower
  refine ⟨round, ballots, ?_, hcounted.nodup_signers hold, ?_, hcounted.nodup_counterparts hnew, ?_⟩
  · intro ballot hballot
    exact ⟨hsigners (List.mem_map_of_mem hballot), hcounted.signed ballot hballot⟩
  · exact (twoThirds_lt_powers_iff holdNonneg holdFits (hcounted.nodup_signers hold) hsigners).mp
      holdPower
  · exact (twoThirds_lt_powers_iff hnewNonneg hnewFits (hcounted.nodup_counterparts hnew)
      hcounterparts).mp hnewPower

end Sound

/-- Three of four known validators go on to a set of which each has the same place. -/
theorem verifyCommitAny_sound_threeOfFour :
    ∃ round, ∃ ballots : List (Ballot UInt8 ℕ),
      (∀ ballot ∈ ballots, ballot.signer ∈ VerifyCommit.fourOfOne.validators ∧
        ballot.Signed sampleCrypto sampleWire "chain" ⟨[9], ⟨1, [9]⟩⟩ 7 round
          VerifyCommit.threeOfFour.precommits) ∧
      ((ballots.map Ballot.signer).map Validator.address).Nodup ∧
      2 * (powers VerifyCommit.fourOfOne.validators).sum <
        3 * (powers (ballots.map Ballot.signer)).sum ∧
      ((ballots.filterMap (Ballot.counterpart VerifyCommit.fourOfOne)).map
        Validator.address).Nodup ∧
      2 * (powers VerifyCommit.fourOfOne.validators).sum <
        3 * (powers (ballots.filterMap (Ballot.counterpart VerifyCommit.fourOfOne))).sum :=
  verifyCommitAny_sound (by decide) (by decide) (by decide) (by decide) (by decide) (by decide)
    (by decide)

end LkChain.Lite.VerifyCommitAny
