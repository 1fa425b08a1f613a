import LkChain.Tendermint.Types
import LkChain.Foundation.Results

/-!
# Blocks and their parts

The methods of `types.Block` and `types.Commit` that look at a single block: its hash, its parts and
its internal consistency. A block comes from a peer, so its data, its last commit, the votes of the
commit and the entries of the evidence may be nil.
-/

namespace LkChain.Tendermint.Types

open Foundation Foundation.Stops
open Validators.ParseTx (Bytes)

variable {PubKey Signature Address Error : Type}

/-! ## Parts -/

/-- The bytes of the part with this index. -/
def chunk (partSize : ℕ) (data : Bytes) (i : ℕ) : Bytes := (data.drop (i * partSize)).take partSize

/-- `NewPartSetFromData`. A part size that is not positive makes it panic, by a division by zero or
an index out of range, and so does data without a single part, which has no Merkle root. -/
def newPartSetFromData (wire : Wire PubKey Signature Address) (data : Bytes) (partSize : ℤ) :
    Fallible Error PartSet :=
  if partSize ≤ 0 then .error (.panic .outOfRange)
  else if data.isEmpty then .error (.panic .nilDereference)
  else
    let size := partSize.toNat
    let indices := List.range ((data.length + size - 1) / size)
    let (root, proofs) := wire.simpleProofs (indices.map (chunk size data))
    .ok ⟨root, indices.map fun i ↦ some ⟨i, chunk size data i, proofs.getD i []⟩⟩

def Block.makePartSet (block : Block PubKey Signature Address)
    (wire : Wire PubKey Signature Address) (partSize : ℤ) : Fallible Error PartSet :=
  newPartSetFromData wire (wire.blockBytes block) partSize

theorem flatten_chunks {partSize : ℕ} (total : ℕ) (data : Bytes) :
    ((List.range total).map (chunk partSize data)).flatten = data.take (total * partSize) := by
  induction total with
  | zero => simp
  | succ total ih =>
    unfold chunk at *
    rw [List.range_succ, List.map_append, List.flatten_append, ih, List.map_singleton,
      List.flatten_singleton, ← List.take_add, Nat.succ_mul]

theorem flatten_all_chunks {partSize : ℕ} (hsize : 0 < partSize) (data : Bytes) :
    ((List.range ((data.length + partSize - 1) / partSize)).map (chunk partSize data)).flatten =
      data := by
  rw [flatten_chunks, List.take_of_length_le]
  have hround := Nat.div_add_mod (data.length + partSize - 1) partSize
  have hmod := Nat.mod_lt (data.length + partSize - 1) hsize
  rw [mul_comm] at hround
  omega

/-! ## Hashes -/

/-- `Commit.Hash`. -/
def commitHash (wire : Wire PubKey Signature Address)
    (commit : Option (Commit Signature Address)) : Fallible Error Bytes :=
  match commit with
  | none => .error (.panic .nilDereference)
  | some commit => .ok (wire.precommitsHash commit.precommits)

/-- `Data.Hash`. -/
def dataHash (wire : Wire PubKey Signature Address) (data : Option (List Bytes)) :
    Fallible Error Bytes :=
  match data with
  | none => .error (.panic .nilDereference)
  | some txs => .ok (wire.txsHash txs)

/-- `EvidenceList.Hash`, which asks every entry for its hash. -/
def evidenceListHash (wire : Wire PubKey Signature Address)
    (evidence : List (Option (DuplicateVoteEvidence PubKey Signature Address))) :
    Fallible Error Bytes :=
  if evidence.all Option.isSome then .ok (wire.evidenceHash (evidence.filterMap id))
  else .error (.panic .nilDereference)

/-- A hash of the header, computed if it is nil. What is computed of an empty list is nil again, and
is the same when it is computed again. -/
def filled (hash : Option Bytes) (compute : Fallible Error Bytes) :
    Fallible Error (Option Bytes) :=
  match hash with
  | none => some <$> compute
  | some hash => .ok (some hash)

/-- A hash of the header as `bytes.Equal` reads it. -/
def hashBytes (hash : Option Bytes) : Bytes := hash.getD []

/-- The header after `FillHeader`. -/
def Block.fillHeader (block : Block PubKey Signature Address)
    (wire : Wire PubKey Signature Address) : Fallible Error Header := do
  let header := block.header
  let lastCommitHash ← filled header.lastCommitHash (commitHash wire block.lastCommit)
  let dataHash ← filled header.dataHash (dataHash wire block.data)
  let evidenceHash ← filled header.evidenceHash (evidenceListHash wire block.evidence)
  return { header with
    lastCommitHash := lastCommitHash, dataHash := dataHash, evidenceHash := evidenceHash }

def Header.hash (header : Header) (wire : Wire PubKey Signature Address) : Bytes :=
  if header.validatorsHash.isEmpty then [] else wire.headerHash header

/-- `Block.Hash`, with the block whose header it has filled. -/
def Block.hash (block : Block PubKey Signature Address) (wire : Wire PubKey Signature Address) :
    Fallible Error (Block PubKey Signature Address × Bytes) :=
  if block.data.isNone || block.lastCommit.isNone then .ok (block, [])
  else do
    let header ← block.fillHeader wire
    return ({ block with header := header }, header.hash wire)

/-! ## Internal consistency -/

/-- The errors of `Block.ValidateBasic`. -/
inductive BasicError where
  | wrongNumTxs (expected found : ℤ)
  | wrongLastCommitHash
  | commitForNilBlock
  | noPrecommits
  | voteNotPrecommit (type : UInt8)
  | voteHeight (expected found : ℤ)
  | voteRound (expected found : ℤ)
  | wrongDataHash
  | wrongEvidenceHash
deriving DecidableEq

/-- The loop of `Commit.ValidateBasic`. -/
def validatePrecommits (height round : ℤ) :
    List (Option (Vote Signature Address)) → Except BasicError Unit
  | [] => .ok ()
  | none :: rest => validatePrecommits height round rest
  | some precommit :: rest =>
    if precommit.type ≠ voteTypePrecommit then .error (.voteNotPrecommit precommit.type)
    else if precommit.height ≠ height then .error (.voteHeight height precommit.height)
    else if precommit.round ≠ round then .error (.voteRound round precommit.round)
    else validatePrecommits height round rest

def Commit.validateBasic (commit : Commit Signature Address) : Fallible BasicError Unit :=
  if commit.blockID.isZero then .error (.error .commitForNilBlock)
  else if commit.precommits.isEmpty then .error (.error .noPrecommits)
  else do
    let height ← commit.height
    let round ← commit.round
    (validatePrecommits height round commit.precommits).mapError .error

/-- The check of the last commit in `Block.ValidateBasic`, left out after the starting height that
the commit itself names. -/
def validateLastCommit (height : ℤ) (lastCommit : Commit Signature Address) :
    Fallible BasicError Unit :=
  if height = lastCommit.nStartBlockNum + 1 then .ok () else lastCommit.validateBasic

/-- `Block.ValidateBasic`: the transactions and the last commit of a consistent block. -/
def Block.validateBasic (block : Block PubKey Signature Address)
    (wire : Wire PubKey Signature Address) :
    Fallible BasicError (List Bytes × Commit Signature Address) :=
  match block.data with
  | none => .error (.panic .nilDereference)
  | some txs =>
    if block.header.numTxs ≠ txs.length then
      .error (.error (.wrongNumTxs txs.length block.header.numTxs))
    else
      match block.lastCommit with
      | none => .error (.panic .nilDereference)
      | some lastCommit =>
        if hashBytes block.header.lastCommitHash ≠ wire.precommitsHash lastCommit.precommits then
          .error (.error .wrongLastCommitHash)
        else do
          validateLastCommit block.header.height lastCommit
          if hashBytes block.header.dataHash ≠ wire.txsHash txs then .error (.error .wrongDataHash)
          else
            let evidenceHash ← evidenceListHash wire block.evidence
            if hashBytes block.header.evidenceHash ≠ evidenceHash then
              .error (.error .wrongEvidenceHash)
            else .ok (txs, lastCommit)

/-! ## What makes these methods panic -/

/-- The hash of the block can be computed: it is nil, or filled in without asking a nil evidence. A
block that was decoded has no nil hash and is never asked for one. -/
def Block.HashSafe (block : Block PubKey Signature Address) : Prop :=
  block.data = none ∨ block.lastCommit = none ∨ block.header.evidenceHash ≠ none ∨
    none ∉ block.evidence

section Panics

variable {wire : Wire PubKey Signature Address} {block : Block PubKey Signature Address}

theorem returns_makePartSet {partSize : ℤ} (hsize : 0 < partSize) :
    Results.Returns (block.makePartSet wire partSize : Fallible Error PartSet) := by
  unfold Block.makePartSet newPartSetFromData
  rw [if_neg (not_le.mpr hsize), if_neg (by simp [wire.blockBytes_ne_nil block])]
  exact ⟨_, rfl⟩

theorem filled_ok {hash : Option Bytes} {computed : Bytes} :
    filled hash (.ok computed : Fallible Error Bytes) = .ok (some (hash.getD computed)) := by
  cases hash <;> rfl

theorem survives_filled_iff {hash : Option Bytes} {compute : Fallible Error Bytes} :
    Survives (filled hash compute) ↔ hash ≠ none ∨ Survives compute := by
  cases hash with
  | some hash => simp [filled]
  | none =>
    have hmap : filled none compute = compute >>= fun hash ↦ pure (some hash) :=
      map_eq_pure_bind ..
    rw [hmap, survives_bind_iff]
    simp

theorem all_isSome_iff
    {evidence : List (Option (DuplicateVoteEvidence PubKey Signature Address))} :
    evidence.all Option.isSome = true ↔ none ∉ evidence := by
  rw [List.all_eq_true]
  constructor
  · intro hsome hnone
    cases hsome none hnone
  · intro hnone entry hentry
    cases entry with
    | none => exact absurd hentry hnone
    | some _ => rfl

theorem survives_evidenceListHash_iff
    {evidence : List (Option (DuplicateVoteEvidence PubKey Signature Address))} :
    Survives (evidenceListHash wire evidence : Fallible Error Bytes) ↔ none ∉ evidence := by
  unfold evidenceListHash
  rw [← all_isSome_iff]
  split
  next hall => simp [hall]
  next hall => simp [hall]

theorem survives_fillHeader_iff {txs : List Bytes} {commit : Commit Signature Address}
    (hdata : block.data = some txs) (hcommit : block.lastCommit = some commit) :
    Survives (block.fillHeader wire : Fallible Error Header) ↔
      block.header.evidenceHash ≠ none ∨ none ∉ block.evidence := by
  unfold Block.fillHeader
  simp only [hdata, hcommit, commitHash, dataHash, filled_ok, survives_bind_iff, survives_ok,
    survives_pure, Except.ok.injEq, forall_eq', implies_true, and_true, true_and,
    survives_filled_iff, survives_evidenceListHash_iff]

theorem returns_evidenceListHash
    {evidence : List (Option (DuplicateVoteEvidence PubKey Signature Address))}
    (hevidence : none ∉ evidence) :
    Results.Returns (evidenceListHash wire evidence : Fallible Error Bytes) := by
  unfold evidenceListHash
  rw [if_pos (all_isSome_iff.mpr hevidence)]
  exact ⟨_, rfl⟩

theorem returns_hash_of_hashSafe (hsafe : block.HashSafe) :
    Results.Returns (block.hash wire : Fallible Error _) := by
  unfold Block.hash
  cases hdata : block.data with
  | none => exact ⟨_, rfl⟩
  | some txs =>
    cases hcommit : block.lastCommit with
    | none => exact ⟨_, rfl⟩
    | some commit =>
      have hevidence : Results.Returns
          (filled block.header.evidenceHash (evidenceListHash wire block.evidence) :
            Fallible Error (Option Bytes)) := by
        cases hhash : block.header.evidenceHash with
        | some hash => exact ⟨_, rfl⟩
        | none =>
          obtain ⟨computed, hcomputed⟩ : Results.Returns
              (evidenceListHash wire block.evidence : Fallible Error Bytes) := by
            refine returns_evidenceListHash (hsafe.resolve_left ?_ |>.resolve_left ?_
              |>.resolve_left ?_)
            · simp [hdata]
            · simp [hcommit]
            · simp [hhash]
          exact ⟨_, by rw [hcomputed, filled_ok]⟩
      obtain ⟨evidenceHash, hevidence⟩ := hevidence
      unfold Block.fillHeader
      simp [hdata, hcommit, commitHash, dataHash, filled_ok, hevidence, Results.returns_bind_iff]

theorem survives_hash_iff :
    Survives (block.hash wire : Fallible Error _) ↔ block.HashSafe := by
  constructor
  · intro hsurvives
    unfold Block.HashSafe
    cases hdata : block.data with
    | none => exact .inl rfl
    | some txs =>
      cases hcommit : block.lastCommit with
      | none => exact .inr (.inl rfl)
      | some commit =>
        unfold Block.hash at hsurvives
        rw [hdata, hcommit, if_neg (by simp), survives_bind_iff] at hsurvives
        exact .inr (.inr ((survives_fillHeader_iff hdata hcommit).mp hsurvives.1))
  · intro hsafe
    obtain ⟨pair, hpair⟩ := returns_hash_of_hashSafe hsafe
    rw [hpair]
    exact survives_ok pair

end Panics

end LkChain.Tendermint.Types
