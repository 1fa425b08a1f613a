import LkChain.Tendermint.Validation
import Mathlib.Data.Countable.Basic
import Mathlib.Logic.Equiv.List
import Mathlib.Data.Set.Basic

/-!
# Who can be accused

`VerifyEvidence` accepts evidence when its key signed two votes for different blocks in one step and
belongs to the validator at the index that the votes name. Signatures cover neither the address nor
the index, and the timestamps of the two votes may differ, so all of these are at the choice of the
accuser. The accused validator has signed two conflicting votes nevertheless.
-/

namespace LkChain.Tendermint.Accusations

open Foundation Tendermint.Types ValSet ChainState StateStore Validation
open Validators.ParseTx (Bytes Crypto sampleCrypto)

variable {PubKey Signature Address : Type}

/-- What `DuplicateVoteEvidence.Verify` asks of two votes and a key. -/
structure Conflicting (crypto : Crypto PubKey Signature Address)
    (wire : Wire PubKey Signature Address) (chainID : String) (pubKey : PubKey)
    (voteA voteB : Vote Signature Address) : Prop where
  height : voteA.height = voteB.height
  round : voteA.round = voteB.round
  type : voteA.type = voteB.type
  blockID : voteA.blockID ≠ voteB.blockID
  signatureA : crypto.verifyBytes pubKey (wire.signBytes chainID voteA) voteA.signature = true
  signatureB : crypto.verifyBytes pubKey (wire.signBytes chainID voteB) voteB.signature = true

section Checks

variable {crypto : Crypto PubKey Signature Address} {wire : Wire PubKey Signature Address}
  {evidence : DuplicateVoteEvidence PubKey Signature Address} {voteA voteB : Vote Signature Address}

theorem conflicting_of_verifyDuplicateVote [LinearOrder Address] {chainID : String}
    (hvoteB : evidence.voteB = some voteB)
    (hverify : verifyDuplicateVote crypto wire chainID evidence voteA = .ok ()) :
    Conflicting crypto wire chainID evidence.pubKey voteA voteB := by
  unfold verifyDuplicateVote at hverify
  rw [hvoteB] at hverify
  dsimp only at hverify
  iterate 7 rw [Results.ite_error_eq_ok_iff] at hverify
  obtain ⟨hstep, -, -, hblock, -, hsignA, hsignB, -⟩ := hverify
  simp only [ne_eq, not_or, not_not] at hstep
  exact {
    height := hstep.1
    round := hstep.2.1
    type := hstep.2.2
    blockID := hblock
    signatureA := by simpa using hsignA
    signatureB := by simpa using hsignB }

theorem accepted_of_verifyEvidence [LinearOrder Address] {db : StateDB PubKey Address}
    {s : State PubKey Address} (hvoteA : evidence.voteA = some voteA)
    (hverify : verifyEvidence crypto wire db s (some evidence) = .ok ()) :
    verifyDuplicateVote crypto wire s.chainID evidence voteA = .ok () ∧
      ∃ valSet index val, loadValidators db voteA.height = .ok (some valSet) ∧
        valSet.getByAddress (crypto.address evidence.pubKey) = some (index, val) ∧
        voteA.validatorIndex = index := by
  unfold verifyEvidence at hverify
  dsimp only at hverify
  rw [hvoteA] at hverify
  dsimp only at hverify
  rw [Results.ite_error_eq_ok_iff, Results.bind_eq_ok_iff] at hverify
  obtain ⟨-, _, hvotes, hverify⟩ := hverify
  rw [Results.bind_eq_ok_iff] at hverify
  obtain ⟨loaded, hload, hverify⟩ := hverify
  rw [Results.mapError_eq_ok_iff] at hload
  refine ⟨hvotes, ?_⟩
  cases loaded with
  | none => cases hverify
  | some valSet =>
    dsimp only at hverify
    rw [Results.ite_error_eq_ok_iff] at hverify
    cases hfound : valSet.getByAddress (crypto.address evidence.pubKey) with
    | none =>
      rw [hfound] at hverify
      cases hverify.2
    | some found =>
      rw [hfound] at hverify
      dsimp only at hverify
      rw [Results.ite_error_eq_ok_iff] at hverify
      exact ⟨valSet, found.1, found.2, hload, hfound, not_not.mp hverify.2.1⟩

end Checks

/-! ## What the holders of keys have signed -/

/-- The votes that the holder of each key has signed, with their chain, and the other texts: those
of proposals and heartbeats. Texts of votes are equal only for votes of one chain that differ in
nothing but the timestamp, which is written to the millisecond, and a valid signature is one that
was made. -/
structure Signing (crypto : Crypto PubKey Signature Address)
    (wire : Wire PubKey Signature Address) where
  votes : PubKey → Set (String × CanonicalVote)
  others : PubKey → Set Bytes
  injective : ∀ chainID other vote vote', wire.canonicalJSON chainID vote =
    wire.canonicalJSON other vote' → chainID = other ∧ vote' =
      { vote with timestamp := vote'.timestamp }
  others_ne : ∀ key, ∀ text ∈ others key, ∀ chainID vote, text ≠ wire.canonicalJSON chainID vote
  unforgeable : ∀ key text signature, crypto.verifyBytes key text signature = true →
    (∃ once ∈ votes key, text = wire.canonicalJSON once.1 once.2) ∨ text ∈ others key

namespace Signing

variable {crypto : Crypto PubKey Signature Address} {wire : Wire PubKey Signature Address}
  (signing : Signing crypto wire)

/-- The holder of the key has not signed two votes for different blocks in one step of a chain. -/
def Honest (key : PubKey) : Prop :=
  ∀ chainID vote other, (chainID, vote) ∈ signing.votes key → (chainID, other) ∈ signing.votes key →
    vote.height = other.height → vote.round = other.round → vote.type = other.type →
    vote.blockID = other.blockID

theorem signed_of_verifyBytes {key : PubKey} {chainID : String} {vote : Vote Signature Address}
    {signature : Signature}
    (hverify : crypto.verifyBytes key (wire.signBytes chainID vote) signature = true) :
    ∃ timestamp, (chainID, { vote.canonical with timestamp := timestamp }) ∈ signing.votes key := by
  rcases signing.unforgeable key _ signature hverify with ⟨once, honce, htext⟩ | hother
  · obtain ⟨rfl, hvote⟩ := signing.injective _ _ _ _ htext
    refine ⟨once.2.timestamp, ?_⟩
    rw [← hvote]
    exact honce
  · exact absurd rfl (signing.others_ne key _ hother chainID vote.canonical)

theorem not_honest_of_conflicting {key : PubKey} {chainID : String}
    {voteA voteB : Vote Signature Address}
    (hconflict : Conflicting crypto wire chainID key voteA voteB) : ¬ signing.Honest key := by
  intro hhonest
  obtain ⟨timeA, hsignedA⟩ := signing.signed_of_verifyBytes hconflict.signatureA
  obtain ⟨timeB, hsignedB⟩ := signing.signed_of_verifyBytes hconflict.signatureB
  apply hconflict.blockID
  exact hhonest chainID _ _ hsignedA hsignedB hconflict.height hconflict.round hconflict.type

end Signing

/-- The addresses of the validators of a set determine their keys. -/
def AddressesDetermineKeys (crypto : Crypto PubKey Signature Address)
    (valSet : ValidatorSet PubKey Address) : Prop :=
  ∀ val ∈ valSet.validators, ∀ key, crypto.address key = val.address → val.pubKey = key

/-- Accepted evidence names a validator of its height at the index of that validator, whose key made
valid signatures of two conflicting votes; no honest validator is accused. -/
theorem accused_signed_conflicting_votes [LinearOrder Address]
    {crypto : Crypto PubKey Signature Address} {wire : Wire PubKey Signature Address}
    (signing : Signing crypto wire) {db : StateDB PubKey Address} {s : State PubKey Address}
    {evidence : DuplicateVoteEvidence PubKey Signature Address}
    {voteA voteB : Vote Signature Address}
    (hkeys : ∀ valSet, loadValidators db voteA.height = .ok (some valSet) →
      AddressesDetermineKeys crypto valSet)
    (hvoteA : evidence.voteA = some voteA) (hvoteB : evidence.voteB = some voteB)
    (hverify : verifyEvidence crypto wire db s (some evidence) = .ok ()) :
    ∃ valSet index val, loadValidators db voteA.height = .ok (some valSet) ∧
      voteA.validatorIndex = ((index : ℕ) : ℤ) ∧ valSet.getByIndex index = some val ∧
      val.address = crypto.address evidence.pubKey ∧
      Conflicting crypto wire s.chainID val.pubKey voteA voteB ∧ ¬ signing.Honest val.pubKey := by
  obtain ⟨hvotes, valSet, index, val, hload, hfound, hindex⟩ :=
    accepted_of_verifyEvidence hvoteA hverify
  obtain ⟨hget, haddress⟩ := getByIndex_of_getByAddress hfound
  have hkey : val.pubKey = evidence.pubKey :=
    hkeys valSet hload val (List.mem_of_getElem? hget) evidence.pubKey haddress.symm
  have hconflict := conflicting_of_verifyDuplicateVote hvoteB hvotes
  rw [← hkey] at hconflict
  exact ⟨valSet, index, val, hload, hindex, hget, haddress, hconflict,
    signing.not_honest_of_conflicting hconflict⟩

/-! ## Sample evidence -/

theorem countable_votes : Countable (String × CanonicalVote) := by
  have hbyte : Countable UInt8 := Function.Injective.countable fun _ _ ↦ UInt8.toNat.inj
  have hchar : Countable Char := Function.Injective.countable fun _ _ ↦ Char.toNat_inj.mp
  have hstring : Countable String := Function.Injective.countable fun _ _ ↦ String.toList_inj.mp
  let fields : CanonicalVote → Bytes × ℤ × Bytes × ℤ × ℤ × ℤ × UInt8 := fun vote ↦
    (vote.blockID.hash, vote.blockID.partsHeader.total, vote.blockID.partsHeader.hash, vote.height,
      vote.round, vote.timestamp, vote.type)
  have hvote : Countable CanonicalVote := by
    apply Function.Injective.countable (f := fields)
    intro vote other hfields
    obtain ⟨⟨hash, total, partsHash⟩, height, round, timestamp, type⟩ := vote
    simp only [fields, Prod.mk.injEq] at hfields
    obtain ⟨rfl, rfl, rfl, rfl, rfl, rfl, rfl⟩ := hfields
    rfl
  infer_instance

theorem exists_injective_json :
    ∃ json : String × CanonicalVote → Bytes, Function.Injective json := by
  have hcountable := countable_votes
  obtain ⟨number, hnumber⟩ := exists_injective_nat (String × CanonicalVote)
  exact ⟨fun once ↦ List.replicate (number once) 0,
    (List.replicate_left_injective 0).comp hnumber⟩

/-- The sample encodings with an injective text for votes. -/
noncomputable def injectiveWire : Wire UInt8 UInt8 ℕ :=
  { sampleWire with canonicalJSON :=
    fun chainID vote ↦ exists_injective_json.choose (chainID, vote) }

/-- Every key has signed everything. -/
noncomputable def signsAll : Signing sampleCrypto injectiveWire where
  votes _ := Set.univ
  others _ := {text | ∀ chainID vote, text ≠ injectiveWire.canonicalJSON chainID vote}
  injective chainID other vote vote' htext := by
    obtain ⟨rfl, rfl⟩ := Prod.mk.inj (exists_injective_json.choose_spec htext)
    exact ⟨rfl, rfl⟩
  others_ne _ _ htext := htext
  unforgeable _ text _ _ := by
    by_cases hvote : ∃ once : String × CanonicalVote, text =
      injectiveWire.canonicalJSON once.1 once.2
    · obtain ⟨once, honce⟩ := hvote
      exact .inl ⟨once, Set.mem_univ once, honce⟩
    · exact .inr fun chainID vote htext ↦ hvote ⟨(chainID, vote), htext⟩

/-- The validator at index 1 of four has precommitted a block and no block. -/
theorem accused_signed_conflicting_precommits :
    let voteA := VerifyCommit.samplePrecommit ⟨[9], ⟨1, [9]⟩⟩ 2
    let voteB := VerifyCommit.samplePrecommit .zero 2
    let db := saveValidatorsInfo .empty 7 7 VerifyCommit.fourOfOne
    ∃ valSet index val, loadValidators db voteA.height = .ok (some valSet) ∧
      voteA.validatorIndex = ((index : ℕ) : ℤ) ∧ valSet.getByIndex index = some val ∧
      val.address = sampleCrypto.address 2 ∧
      Conflicting sampleCrypto injectiveWire (sampleState 8).chainID val.pubKey voteA voteB ∧
      ¬ signsAll.Honest val.pubKey := by
  intro voteA voteB db
  have hverify : verifyEvidence sampleCrypto injectiveWire db (sampleState 8)
      (some ⟨2, some voteA, some voteB⟩) = .ok () := rfl
  refine accused_signed_conflicting_votes signsAll ?_ rfl rfl hverify
  intro valSet hload val hval key haddress
  cases hload
  have hkeys : ∀ val ∈ VerifyCommit.fourOfOne.validators, val.pubKey.toNat = val.address := by
    decide
  exact UInt8.toNat.inj ((hkeys val hval).trans haddress.symm)

end LkChain.Tendermint.Accusations
