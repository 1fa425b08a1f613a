import LkChain.Tendermint.Blocks
import LkChain.Tendermint.StateStore
import LkChain.Tendermint.VerifyCommit

/-!
# Validating a block of a peer

`validateBlock` checks a block against the state and `verifyFirst` is the step of the sync loop that
verifies a block by the commit in the next one. Both run on blocks of peers and should answer with
an error. They panic on blocks with nil fields, and on a commit whose precommits are all nil,
because `Height` and `Round` take the first precommit that is not nil without looking whether there
is one.
-/

namespace LkChain.Tendermint.Validation

open Foundation Foundation.Stops Tendermint.Types ValSet ChainState StateStore VerifyCommit
open Validators.ParseTx (Bytes Crypto sampleCrypto)

variable {PubKey Signature Address : Type}

/-- The errors of `validateBlock`. -/
inductive ValidationError (Signature Address : Type) where
  | basic (error : BasicError)
  | wrongChainID (expected found : String)
  | wrongHeight (expected found : ℤ)
  | wrongLastBlockID (expected found : BlockID)
  | wrongTotalTxs (expected found : ℤ)
  | wrongAppHash (expected found : Bytes)
  | wrongConsensusHash (expected found : Bytes)
  | wrongLastResultsHash (expected found : Bytes)
  | wrongValidatorsHash (expected found : Bytes)
  | commitInFirstBlock
  | commitSize (expected found : ℕ)
  | commit (error : CommitError Signature Address)
  | evidenceTooOld (height minHeight : ℤ)
  | votesDiffer
  | addressesDiffer
  | indicesDiffer
  | sameBlock
  | voteASignature
  | voteBSignature
  | load (error : LoadError)
  | notValidator (address : Address) (height : ℤ)
  | wrongIndex (address : Address) (height : ℤ) (expected found : ℤ)

section Program

variable [LinearOrder Address] (crypto : Crypto PubKey Signature Address)
  (wire : Wire PubKey Signature Address)

/-- `DuplicateVoteEvidence.Verify`, given the first vote. -/
def verifyDuplicateVote (chainID : String)
    (evidence : DuplicateVoteEvidence PubKey Signature Address) (voteA : Vote Signature Address) :
    Fallible (ValidationError Signature Address) Unit :=
  match evidence.voteB with
  | none => .error (.panic .nilDereference)
  | some voteB =>
    if voteA.height ≠ voteB.height ∨ voteA.round ≠ voteB.round ∨ voteA.type ≠ voteB.type then
      .error (.error .votesDiffer)
    else if voteA.validatorAddress ≠ voteB.validatorAddress then .error (.error .addressesDiffer)
    else if voteA.validatorIndex ≠ voteB.validatorIndex then .error (.error .indicesDiffer)
    else if voteA.blockID = voteB.blockID then .error (.error .sameBlock)
    else if crypto.empty evidence.pubKey then .error (.panic .nilDereference)
    else if !crypto.verifyBytes evidence.pubKey (wire.signBytes chainID voteA) voteA.signature then
      .error (.error .voteASignature)
    else if !crypto.verifyBytes evidence.pubKey (wire.signBytes chainID voteB) voteB.signature then
      .error (.error .voteBSignature)
    else .ok ()

def verifyEvidence (db : StateDB PubKey Address) (s : State PubKey Address)
    (evidence : Option (DuplicateVoteEvidence PubKey Signature Address)) :
    Fallible (ValidationError Signature Address) Unit :=
  match evidence with
  | none => .error (.panic .nilDereference)
  | some evidence =>
    match evidence.voteA with
    | none => .error (.panic .nilDereference)
    | some voteA =>
      if s.consensusParams.evidenceMaxAge < Int64.wrap (s.lastBlockHeight - voteA.height) then
        .error (.error (.evidenceTooOld voteA.height
          (Int64.wrap (s.lastBlockHeight - s.consensusParams.evidenceMaxAge))))
      else do
        verifyDuplicateVote crypto wire s.chainID evidence voteA
        let valset ← (loadValidators db voteA.height).mapError (Stop.map .load)
        match valset with
        | none => .error (.panic .nilDereference)
        | some valset =>
          if crypto.empty evidence.pubKey then .error (.panic .nilDereference)
          else
            let addr := crypto.address evidence.pubKey
            match valset.getByAddress addr with
            | none => .error (.error (.notValidator addr voteA.height))
            | some (valIdx, _) =>
              if voteA.validatorIndex ≠ valIdx then
                .error (.error (.wrongIndex addr voteA.height valIdx voteA.validatorIndex))
              else .ok ()

/-- The check of the last commit in `validateBlock`. -/
def validateCommit (s : State PubKey Address) (block : Block PubKey Signature Address)
    (lastCommit : Commit Signature Address) : Fallible (ValidationError Signature Address) Unit :=
  if block.header.height = 1 ∨ block.header.height = s.lastBlockHeight + 1 ∧
      0 < s.lastBlockHeight ∧ s.lastValidators.size = 0 then
    if lastCommit.precommits.length ≠ 0 then .error (.error .commitInFirstBlock) else .ok ()
  else if lastCommit.precommits.length ≠ s.lastValidators.size then
    .error (.error (.commitSize s.lastValidators.size lastCommit.precommits.length))
  else
    (verifyCommit crypto wire s.lastValidators s.chainID s.lastBlockID (block.header.height - 1)
      (some lastCommit)).mapError (Stop.map .commit)

/-- The checks of `validateBlock` on the header. -/
def validateHeader (s : State PubKey Address) (header : Header) (newTxs : ℤ) :
    Except (ValidationError Signature Address) Unit :=
  if header.chainID ≠ s.chainID then .error (.wrongChainID s.chainID header.chainID)
  else if header.height ≠ s.lastBlockHeight + 1 then
    .error (.wrongHeight (s.lastBlockHeight + 1) header.height)
  else if header.lastBlockID ≠ s.lastBlockID then
    .error (.wrongLastBlockID s.lastBlockID header.lastBlockID)
  else if header.totalTxs ≠ s.lastBlockTotalTx + newTxs then
    .error (.wrongTotalTxs (s.lastBlockTotalTx + newTxs) header.totalTxs)
  else if header.appHash ≠ s.appHash then .error (.wrongAppHash s.appHash header.appHash)
  else if header.consensusHash ≠ s.consensusParams.hash wire then
    .error (.wrongConsensusHash (s.consensusParams.hash wire) header.consensusHash)
  else if header.lastResultsHash ≠ s.lastResultsHash then
    .error (.wrongLastResultsHash s.lastResultsHash header.lastResultsHash)
  else if header.validatorsHash ≠ s.validators.hash wire then
    .error (.wrongValidatorsHash (s.validators.hash wire) header.validatorsHash)
  else .ok ()

/-- The loop over the evidence in `validateBlock`. -/
def verifyAllEvidence (db : StateDB PubKey Address) (s : State PubKey Address) :
    List (Option (DuplicateVoteEvidence PubKey Signature Address)) →
    Fallible (ValidationError Signature Address) Unit
  | [] => .ok ()
  | evidence :: rest => do
    verifyEvidence crypto wire db s evidence
    verifyAllEvidence db s rest

def validateBlock (db : StateDB PubKey Address) (s : State PubKey Address)
    (block : Block PubKey Signature Address) : Fallible (ValidationError Signature Address) Unit :=
      do
  let (txs, lastCommit) ← (block.validateBasic wire).mapError (Stop.map .basic)
  (validateHeader wire s block.header txs.length).mapError .error
  validateCommit crypto wire s block lastCommit
  verifyAllEvidence crypto wire db s block.evidence

/-- The verification in the sync loop: the first block with its header filled, its parts and its
identity, if the commit in the second block is for it. -/
def verifyFirst (s : State PubKey Address) (first second : Block PubKey Signature Address) :
    Fallible (CommitError Signature Address)
      (Block PubKey Signature Address × PartSet × BlockID) := do
  let firstParts ← first.makePartSet wire s.consensusParams.blockPartSizeBytes
  let (hashed, hash) ← first.hash wire
  let firstID : BlockID := ⟨hash, firstParts.header⟩
  verifyCommit crypto wire s.validators s.chainID firstID first.header.height second.lastCommit
  return (hashed, firstParts, firstID)

end Program

/-! ## What makes them panic -/

/-- Validators whose keys do not wrap nil. -/
def KeysSafe (crypto : Crypto PubKey Signature Address) (valSet : ValidatorSet PubKey Address) :
    Prop := ∀ v ∈ valSet.validators, crypto.empty v.pubKey = false

/-- The two votes are for different blocks where one vote was due. -/
def Conflict (voteA voteB : Vote Signature Address) : Prop :=
  (voteA.height = voteB.height ∧ voteA.round = voteB.round ∧ voteA.type = voteB.type) ∧
    voteA.validatorAddress = voteB.validatorAddress ∧
    voteA.validatorIndex = voteB.validatorIndex ∧ voteA.blockID ≠ voteB.blockID

/-- Evidence with a first vote, with a second one unless the first is too old, and with a key that
does not wrap nil if the votes conflict. -/
def EvidenceSafe (crypto : Crypto PubKey Signature Address) (s : State PubKey Address)
    (evidence : DuplicateVoteEvidence PubKey Signature Address) : Prop :=
  ∃ voteA, evidence.voteA = some voteA ∧
    (Int64.wrap (s.lastBlockHeight - voteA.height) ≤ s.consensusParams.evidenceMaxAge →
      ∃ voteB, evidence.voteB = some voteB ∧
        (Conflict voteA voteB → crypto.empty evidence.pubKey = false))

/-- The first block of a chain, which has no commit to verify. -/
def IsFirst (s : State PubKey Address) (block : Block PubKey Signature Address) : Prop :=
  block.header.height = 1 ∨ block.header.height = s.lastBlockHeight + 1 ∧
    0 < s.lastBlockHeight ∧ s.lastValidators.size = 0

/-- A block whose data is there, and whose last commit and evidence are there if the checks of
`ValidateBasic` come to them: the number of transactions before the commit, the hash of the
precommits and the identity of the block before the first vote, and the commit and the data before
the evidence. -/
structure BasicSafe (wire : Wire PubKey Signature Address)
    (block : Block PubKey Signature Address) : Prop where
  data : block.data ≠ none
  lastCommit : ∀ txs, block.data = some txs → block.header.numTxs = txs.length →
    ∃ commit, block.lastCommit = some commit ∧
      (hashBytes block.header.lastCommitHash = wire.precommitsHash commit.precommits →
        (block.header.height ≠ commit.nStartBlockNum + 1 → commit.blockID.isZero = false →
          commit.FieldSafe) ∧
        (validateLastCommit block.header.height commit = .ok () →
          hashBytes block.header.dataHash = wire.txsHash txs → none ∉ block.evidence))

section Safe

variable [LinearOrder Address] (crypto : Crypto PubKey Signature Address)
  (wire : Wire PubKey Signature Address) (db : StateDB PubKey Address) (s : State PubKey Address)

/-- Evidence that the loop can go through: an entry is looked at if all before it are verified. -/
def EvidenceListSafe
    (entries : List (Option (DuplicateVoteEvidence PubKey Signature Address))) : Prop :=
  ∀ before entry after, entries = before ++ entry :: after →
    (∀ other ∈ before, verifyEvidence crypto wire db s other = .ok ()) →
    ∃ evidence, entry = some evidence ∧ EvidenceSafe crypto s evidence

/-- A block without nil where `validateBlock` comes to follow a pointer. A commit whose precommits
are all nil reaches `VerifyCommit` if `ValidateBasic` has left it out, as it does after the starting
height. -/
structure BlockSafe (block : Block PubKey Signature Address) : Prop where
  basic : BasicSafe wire block
  commit : ∀ txs commit, block.validateBasic wire = .ok (txs, commit) →
    (validateHeader wire s block.header txs.length :
      Except (ValidationError Signature Address) Unit) = .ok () →
    ¬ IsFirst s block → commit.precommits.length = s.lastValidators.size → commit.FieldSafe
  evidence : ∀ txs commit, block.validateBasic wire = .ok (txs, commit) →
    (validateHeader wire s block.header txs.length :
      Except (ValidationError Signature Address) Unit) = .ok () →
    validateCommit crypto wire s block commit = .ok () →
    EvidenceListSafe crypto wire db s block.evidence

end Safe

section Panics

variable {crypto : Crypto PubKey Signature Address} {wire : Wire PubKey Signature Address}
  {db : StateDB PubKey Address} {s : State PubKey Address}
  {block : Block PubKey Signature Address}

theorem survives_commit_validateBasic_iff {commit : Commit Signature Address} :
    Survives commit.validateBasic ↔ (commit.blockID.isZero = false → commit.FieldSafe) := by
  unfold Commit.validateBasic
  split
  next hzero => simp [hzero]
  next hzero =>
    split
    next hempty => simpa using fun _ ↦ .inl (List.isEmpty_iff.mp hempty)
    next =>
      simp only [survives_bind_iff, Commit.height, Commit.round, Commit.survives_firstField_iff,
        survives_mapError_error, implies_true, and_true, eq_false_of_ne_true hzero, true_imp_iff]
      exact ⟨fun h ↦ h.1, fun h ↦ ⟨h, fun _ _ ↦ h⟩⟩

theorem survives_validateLastCommit_iff {commit : Commit Signature Address} {height : ℤ} :
    Survives (validateLastCommit height commit) ↔
      (height ≠ commit.nStartBlockNum + 1 → commit.blockID.isZero = false → commit.FieldSafe) := by
  unfold validateLastCommit
  split
  next hstart => simp [hstart]
  next hstart => simp [hstart, survives_commit_validateBasic_iff]

theorem survives_validateBasic_iff : Survives (block.validateBasic wire) ↔
    BasicSafe wire block := by
  unfold Block.validateBasic
  cases hdata : block.data with
  | none => exact iff_of_false (not_survives_panic _) fun hsafe ↦ hsafe.data hdata
  | some txs =>
    have hiff : BasicSafe wire block ↔ _ :=
      ⟨fun hsafe ↦ hsafe.lastCommit txs hdata, fun hlast ↦
        ⟨by simp [hdata], fun other hother ↦ by cases hdata.symm.trans hother; exact hlast⟩⟩
    rw [hiff]
    dsimp only
    rw [survives_ite_error_iff, not_not]
    refine imp_congr_right fun _ ↦ ?_
    cases block.lastCommit with
    | none => simp
    | some commit =>
      simp only [Option.some.injEq, exists_eq_left', survives_ite_error_iff, survives_bind_iff,
        survives_validateLastCommit_iff, survives_evidenceListHash_iff, survives_ok, not_not,
        implies_true, and_true]
      exact imp_congr_right fun _ ↦ and_congr_right fun _ ↦ ⟨fun h ↦ h (), fun h _ ↦ h⟩

/-- `ValidateBasic` returns the transactions and the last commit of the block. -/
theorem fields_of_validateBasic {txs : List Bytes} {commit : Commit Signature Address}
    (hbasic : block.validateBasic wire = .ok (txs, commit)) :
    block.lastCommit = some commit ∧ block.header.numTxs = txs.length := by
  unfold Block.validateBasic at hbasic
  split at hbasic
  next => cases hbasic
  next =>
    rw [Results.ite_error_eq_ok_iff] at hbasic
    obtain ⟨hnumTxs, hbasic⟩ := hbasic
    split at hbasic
    next => cases hbasic
    next found hfound =>
      simp only [Results.ite_error_eq_ok_iff, Results.bind_eq_ok_iff] at hbasic
      obtain ⟨-, -, -, -, -, -, -, hreturn⟩ := hbasic
      cases hreturn
      exact ⟨hfound, not_not.mp hnumTxs⟩

theorem header_of_validateBlock [LinearOrder Address]
    (hvalid : validateBlock crypto wire db s block = .ok ()) :
    block.header.lastBlockID = s.lastBlockID ∧ block.header.appHash = s.appHash ∧
      block.header.lastResultsHash = s.lastResultsHash ∧
      block.header.totalTxs = s.lastBlockTotalTx + block.header.numTxs := by
  unfold validateBlock at hvalid
  simp only [Results.bind_eq_ok_iff, Results.mapError_eq_ok_iff] at hvalid
  obtain ⟨⟨txs, lastCommit⟩, hbasic, _, hheader, -⟩ := hvalid
  rw [(fields_of_validateBasic hbasic).2]
  simp only [validateHeader, Results.ite_error_eq_ok_iff, not_not] at hheader
  obtain ⟨-, -, hlastBlockID, htotalTxs, happHash, -, hlastResultsHash, -⟩ := hheader
  exact ⟨hlastBlockID, happHash, hlastResultsHash, htotalTxs⟩

theorem survives_validateCommit_iff (hkeys : KeysSafe crypto s.lastValidators)
    {commit : Commit Signature Address} :
    Survives (validateCommit crypto wire s block commit) ↔
      (¬ IsFirst s block → commit.precommits.length = s.lastValidators.size → commit.FieldSafe)
        := by
  unfold validateCommit
  split
  next hfirst =>
    refine iff_of_true ?_ fun h ↦ absurd hfirst h
    exact survives_ite_error_iff.mpr fun _ ↦ survives_ok ()
  next hfirst =>
    rw [survives_ite_error_iff, survives_mapError_iff, survives_verifyCommit_iff hkeys, not_not]
    unfold CommitSafe
    simp only [Option.some.injEq, exists_eq_left']
    exact ⟨fun h _ hsize ↦ h hsize hsize, fun h hsize _ ↦ h hfirst hsize⟩

variable [LinearOrder Address]

theorem survives_verifyDuplicateVote_iff {chainID : String}
    {evidence : DuplicateVoteEvidence PubKey Signature Address} {voteA : Vote Signature Address} :
    Survives (verifyDuplicateVote crypto wire chainID evidence voteA) ↔
      ∃ voteB, evidence.voteB = some voteB ∧
        (Conflict voteA voteB → crypto.empty evidence.pubKey = false) := by
  unfold verifyDuplicateVote Conflict
  cases evidence.voteB with
  | none => simp
  | some voteB =>
    simp only [Option.some.injEq, exists_eq_left', survives_ite_error_iff, not_or, not_not, and_imp]
    cases crypto.empty evidence.pubKey <;> simp [survives_ite_error_iff]

theorem key_of_verifyDuplicateVote {chainID : String}
    {evidence : DuplicateVoteEvidence PubKey Signature Address} {voteA : Vote Signature Address}
    (hverify : verifyDuplicateVote crypto wire chainID evidence voteA = .ok ()) :
    crypto.empty evidence.pubKey = false := by
  unfold verifyDuplicateVote at hverify
  split at hverify
  next => cases hverify
  next =>
    simp only [Results.ite_error_eq_ok_iff] at hverify
    exact eq_false_of_ne_true hverify.2.2.2.2.1

theorem survives_verifyEvidence_iff (hdb : Readable db)
    {evidence : DuplicateVoteEvidence PubKey Signature Address} :
    Survives (verifyEvidence crypto wire db s (some evidence)) ↔
      EvidenceSafe crypto s evidence := by
  unfold verifyEvidence EvidenceSafe
  dsimp only
  cases evidence.voteA with
  | none => simp
  | some voteA =>
    simp only [Option.some.injEq, exists_eq_left', survives_ite_error_iff, not_lt,
      survives_bind_iff, survives_verifyDuplicateVote_iff]
    refine imp_congr_right fun _ ↦ and_iff_left fun _ hverify ↦ ?_
    -- Past the check of the votes every step answers: the key is not nil and the validators of the
    -- height are found or are an error.
    rw [survives_mapError_iff, key_of_verifyDuplicateVote hverify]
    rcases hdb voteA.height with ⟨error, herror⟩ | ⟨valSet, hvalSet⟩
    · rw [herror]
      exact ⟨survives_error _, fun _ h ↦ (by cases h)⟩
    · rw [hvalSet]
      refine ⟨survives_ok _, fun found hfound ↦ ?_⟩
      cases hfound
      dsimp only
      rw [if_neg Bool.false_ne_true]
      cases valSet.getByAddress (crypto.address evidence.pubKey) with
      | none => exact survives_error _
      | some found => exact survives_ite_error_iff.mpr fun _ ↦ survives_ok ()

theorem survives_verifyAllEvidence_iff (hdb : Readable db)
    {entries : List (Option (DuplicateVoteEvidence PubKey Signature Address))} :
    Survives (verifyAllEvidence crypto wire db s entries) ↔
      EvidenceListSafe crypto wire db s entries := by
  induction entries with
  | nil => simp [verifyAllEvidence, EvidenceListSafe]
  | cons entry entries ih =>
    have hentry : Survives (verifyEvidence crypto wire db s entry) ↔
        ∃ evidence, entry = some evidence ∧ EvidenceSafe crypto s evidence := by
      cases entry with
      | none => simp [verifyEvidence]
      | some evidence => simp [survives_verifyEvidence_iff hdb]
    unfold verifyAllEvidence
    simp only [survives_bind_iff, ih, hentry]
    constructor
    · rintro ⟨hhead, htail⟩ before found after hsplit hbefore
      cases before with
      | nil =>
        cases hsplit
        exact hhead
      | cons first before =>
        cases hsplit
        exact htail () (hbefore _ List.mem_cons_self) before found after rfl fun other hother ↦
          hbefore other (List.mem_cons_of_mem _ hother)
    · intro hall
      refine ⟨hall [] entry entries rfl fun _ h ↦ (by cases h), fun _ hok before found after hsplit
        hbefore ↦ hall (entry :: before) found after (by rw [hsplit]; rfl) ?_⟩
      rintro other (_ | ⟨_, hother⟩)
      · exact hok
      · exact hbefore other hother

theorem survives_validateBlock_iff (hkeys : KeysSafe crypto s.lastValidators) (hdb : Readable db) :
    Survives (validateBlock crypto wire db s block) ↔ BlockSafe crypto wire db s block := by
  unfold validateBlock
  simp only [survives_bind_iff, survives_mapError_iff, survives_mapError_error, true_and,
    Results.mapError_eq_ok_iff, survives_validateBasic_iff, Prod.forall,
    survives_validateCommit_iff hkeys, survives_verifyAllEvidence_iff hdb]
  constructor
  · rintro ⟨hbasic, hrest⟩
    exact ⟨hbasic, fun txs commit hok hheader ↦ (hrest txs commit hok () hheader).1,
      fun txs commit hok hheader hcommit ↦ (hrest txs commit hok () hheader).2 () hcommit⟩
  · intro hsafe
    exact ⟨hsafe.basic, fun txs commit hok _ hheader ↦ ⟨hsafe.commit txs commit hok hheader,
      fun _ ↦ hsafe.evidence txs commit hok hheader⟩⟩

/-- The step of the sync loop panics exactly when the first block has a nil evidence that its hash
asks for, or the commit of the second one is nil or has nothing but nil precommits, one for each
validator. `validateBlock` panics exactly when it comes to something that is nil. -/
theorem sync_survives_iff (hkeys : KeysSafe crypto s.validators)
    (hlastKeys : KeysSafe crypto s.lastValidators)
    (hpartSize : 0 < s.consensusParams.blockPartSizeBytes) (hdb : Readable db)
    {first second : Block PubKey Signature Address} :
    (Survives (verifyFirst crypto wire s first second) ↔
        first.HashSafe ∧ CommitSafe s.validators.size second.lastCommit) ∧
      (Survives (validateBlock crypto wire db s block) ↔ BlockSafe crypto wire db s block) := by
  refine ⟨?_, survives_validateBlock_iff hlastKeys hdb⟩
  unfold verifyFirst
  obtain ⟨parts, hparts⟩ : Results.Returns
      (first.makePartSet wire s.consensusParams.blockPartSizeBytes :
        Fallible (CommitError Signature Address) PartSet) := returns_makePartSet hpartSize
  simp only [hparts, survives_ok, true_and, Except.ok.injEq, forall_eq', survives_bind_iff,
    survives_hash_iff, survives_verifyCommit_iff hkeys, survives_pure, implies_true, and_true]
  constructor
  · rintro ⟨hhash, hcommit⟩
    obtain ⟨hashed, hreturns⟩ := returns_hash_of_hashSafe hhash
    exact ⟨hhash, hcommit hashed hreturns⟩
  · rintro ⟨hhash, hcommit⟩
    exact ⟨hhash, fun _ _ ↦ hcommit⟩

end Panics

/-- An empty block with an empty commit. -/
def sampleBlock (height : ℤ) : Block UInt8 UInt8 ℕ where
  header := ⟨"chain", height, 200, 0, .zero, 0, some [1], some [2], [5, 1, 10], [], [0], [],
    some [3], "proposer"⟩
  data := some []
  evidence := []
  lastCommit := some ⟨.zero, [], 0⟩

/-- A pair of empty blocks does not stop the sync loop. -/
theorem sync_survives_empty_blocks :
    Survives (verifyFirst sampleCrypto sampleWire (sampleState 0) (sampleBlock 1) (sampleBlock 2)) ∧
      Survives (validateBlock sampleCrypto sampleWire .empty (sampleState 0) (sampleBlock 1)) := by
  have hkeys : KeysSafe sampleCrypto (sampleState 0).validators := by
    unfold KeysSafe
    decide
  have hlastKeys : KeysSafe sampleCrypto (sampleState 0).lastValidators := fun _ h ↦ (by cases h)
  obtain ⟨hfirst, hvalidate⟩ :
      (Survives (verifyFirst sampleCrypto sampleWire (sampleState 0) (sampleBlock 1)
        (sampleBlock 2)) ↔ _) ∧
      (Survives (validateBlock sampleCrypto sampleWire .empty (sampleState 0)
        (sampleBlock 1)) ↔ _) :=
    sync_survives_iff hkeys hlastKeys (by decide) readable_empty
  refine ⟨hfirst.mpr ⟨.inr (.inr (.inl (Option.some_ne_none _))), _, rfl, fun _ ↦ .inl rfl⟩,
    hvalidate.mpr ⟨⟨Option.some_ne_none _, ?_⟩, fun txs commit hbasic _ _ _ ↦ ?_, ?_⟩⟩
  · exact fun _ _ _ ↦ ⟨_, rfl, fun _ ↦ ⟨fun _ _ ↦ .inl rfl, fun _ _ ↦ List.not_mem_nil⟩⟩
  · cases (fields_of_validateBasic hbasic).1
    exact .inl rfl
  · intro txs commit _ _ _ before entry after hsplit
    cases before <;> cases hsplit

/-- A second block without a commit stops it, and so does a commit with a nil precommit for the only
validator, in the sync loop and in `validateBlock`. -/
theorem sync_panics_on_nil :
    let nilCommit : Block UInt8 UInt8 ℕ := { sampleBlock 2 with lastCommit := none }
    let nilPrecommits : Block UInt8 UInt8 ℕ :=
      { sampleBlock 2 with lastCommit := some ⟨⟨[1], ⟨1, [1]⟩⟩, [none], 0⟩ }
    verifyFirst sampleCrypto sampleWire (sampleState 0) (sampleBlock 1) nilCommit =
        .error (.panic .nilDereference) ∧
      verifyFirst sampleCrypto sampleWire (sampleState 0) (sampleBlock 1) nilPrecommits =
        .error (.panic .nilDereference) ∧
      validateBlock sampleCrypto sampleWire .empty (sampleState 0) nilCommit =
        .error (.panic .nilDereference) ∧
      validateBlock sampleCrypto sampleWire .empty (sampleState 0) nilPrecommits =
        .error (.panic .nilDereference) :=
  ⟨rfl, rfl, rfl, rfl⟩

end LkChain.Tendermint.Validation
