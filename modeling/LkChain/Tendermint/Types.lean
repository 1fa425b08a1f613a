import LkChain.Foundation.Stops
import LkChain.Validators.TxBased

/-!
# Votes, commits and blocks

The data of `tendermint/types`, as it comes off the wire: a pointer may be nil, a byte slice of
length zero is nil, and an interface value may be nil. Public keys, signatures and addresses are
those of the public-key library. Encodings and Merkle hashes are the parameters `Wire`.
-/

namespace LkChain.Tendermint.Types

open Foundation.Stops
open Validators.ParseTx (Bytes)

/-- The panics of this layer. -/
inductive Panic where
  | nilDereference
  | outOfRange
  | sanity (message : String)
deriving DecidableEq, Repr

/-- The result of a function that returns a value or an error, or panics. -/
abbrev Fallible (Error Output : Type) := Except (Stop Panic Error) Output

structure PartSetHeader where
  total : ℤ
  hash : Bytes
deriving DecidableEq, Repr

def PartSetHeader.isZero (header : PartSetHeader) : Bool := header.total = 0

structure BlockID where
  hash : Bytes
  partsHeader : PartSetHeader
deriving DecidableEq, Repr

def BlockID.isZero (blockID : BlockID) : Bool := blockID.hash.isEmpty && blockID.partsHeader.isZero

/-- `BlockID{}`. -/
def BlockID.zero : BlockID := ⟨[], ⟨0, []⟩⟩

def voteTypePrecommit : UInt8 := 0x02

structure Vote (Signature Address : Type) where
  validatorAddress : Address
  validatorIndex : ℤ
  height : ℤ
  round : ℤ
  timestamp : ℤ
  type : UInt8
  blockID : BlockID
  signature : Signature
deriving DecidableEq

/-- `CanonicalJSONVote`: what a signature covers. -/
structure CanonicalVote where
  blockID : BlockID
  height : ℤ
  round : ℤ
  timestamp : ℤ
  type : UInt8
deriving DecidableEq

def Vote.canonical {Signature Address : Type} (vote : Vote Signature Address) : CanonicalVote :=
  ⟨vote.blockID, vote.height, vote.round, vote.timestamp, vote.type⟩

/-- `Commit`, without its volatile caches. -/
structure Commit (Signature Address : Type) where
  blockID : BlockID
  precommits : List (Option (Vote Signature Address))
  nStartBlockNum : ℤ
deriving DecidableEq

section Commit

variable {Signature Address Error : Type}

def Commit.firstPrecommit (commit : Commit Signature Address) : Option (Vote Signature Address) :=
  commit.precommits.findSome? id

/-- A field of the first precommit, which is dereferenced without looking. -/
def Commit.firstField (commit : Commit Signature Address) (whenEmpty : ℤ)
    (field : Vote Signature Address → ℤ) : Fallible Error ℤ :=
  if commit.precommits.isEmpty then .ok whenEmpty
  else
    match commit.firstPrecommit with
    | none => .error (.panic .nilDereference)
    | some vote => .ok (field vote)

def Commit.height (commit : Commit Signature Address) : Fallible Error ℤ :=
  commit.firstField commit.nStartBlockNum Vote.height

def Commit.round (commit : Commit Signature Address) : Fallible Error ℤ :=
  commit.firstField 0 Vote.round

/-- The commit holds a vote. -/
def Commit.HasVote (commit : Commit Signature Address) : Prop :=
  ∃ vote, some vote ∈ commit.precommits

theorem Commit.firstPrecommit_eq_none_iff {commit : Commit Signature Address} :
    commit.firstPrecommit = none ↔ ¬ commit.HasVote := by
  unfold Commit.firstPrecommit Commit.HasVote
  rw [List.findSome?_eq_none_iff]
  constructor
  · intro hnone ⟨vote, hmem⟩
    cases hnone _ hmem
  · intro hno precommit hmem
    cases precommit with
    | none => rfl
    | some vote => exact absurd ⟨vote, hmem⟩ hno

theorem Commit.mem_of_firstPrecommit {commit : Commit Signature Address}
    {vote : Vote Signature Address} (hfirst : commit.firstPrecommit = some vote) :
    some vote ∈ commit.precommits := by
  obtain ⟨precommit, hmem, hid⟩ := List.exists_of_findSome?_eq_some hfirst
  cases hid
  exact hmem

theorem Commit.firstField_of_firstPrecommit {commit : Commit Signature Address}
    {vote : Vote Signature Address} (hfirst : commit.firstPrecommit = some vote) (whenEmpty : ℤ)
    (field : Vote Signature Address → ℤ) :
    (commit.firstField whenEmpty field : Fallible Error ℤ) = .ok (field vote) := by
  have hmem := Commit.mem_of_firstPrecommit hfirst
  unfold Commit.firstField
  rw [if_neg (by simpa using List.ne_nil_of_mem hmem), hfirst]

/-- The commit has a first precommit, or none at all. -/
def Commit.FieldSafe (commit : Commit Signature Address) : Prop :=
  commit.precommits = [] ∨ commit.HasVote

theorem Commit.survives_firstField_iff {commit : Commit Signature Address} {whenEmpty : ℤ}
    {field : Vote Signature Address → ℤ} :
    Survives (commit.firstField whenEmpty field : Fallible Error ℤ) ↔ commit.FieldSafe := by
  unfold Commit.firstField Commit.FieldSafe
  rw [← not_iff_comm.mp Commit.firstPrecommit_eq_none_iff.symm]
  cases commit.precommits with
  | nil => simp
  | cons precommit rest => cases commit.firstPrecommit <;> simp

end Commit

structure DuplicateVoteEvidence (PubKey Signature Address : Type) where
  pubKey : PubKey
  voteA : Option (Vote Signature Address)
  voteB : Option (Vote Signature Address)
deriving DecidableEq

/-- `Header`. The three hashes that `FillHeader` computes may be nil, which is not the same as
empty: the decoder of a block returns an empty slice. -/
structure Header where
  chainID : String
  height : ℤ
  time : ℤ
  numTxs : ℤ
  lastBlockID : BlockID
  totalTxs : ℤ
  lastCommitHash : Option Bytes
  dataHash : Option Bytes
  validatorsHash : Bytes
  consensusHash : Bytes
  appHash : Bytes
  lastResultsHash : Bytes
  evidenceHash : Option Bytes
  coinbase : String
deriving DecidableEq

/-- `Block` with a header. An entry of the evidence is a nil interface or a duplicate vote. -/
structure Block (PubKey Signature Address : Type) where
  header : Header
  data : Option (List Bytes)
  evidence : List (Option (DuplicateVoteEvidence PubKey Signature Address))
  lastCommit : Option (Commit Signature Address)
deriving DecidableEq

structure Part where
  index : ℕ
  bytes : Bytes
  proof : List Bytes
deriving DecidableEq

structure PartSet where
  hash : Bytes
  parts : List (Option Part)
deriving DecidableEq

def PartSet.header (parts : PartSet) : PartSetHeader := ⟨parts.parts.length, parts.hash⟩

def PartSet.isComplete (parts : PartSet) : Bool := parts.parts.all Option.isSome

structure BlockSize where
  maxBytes : ℤ
  maxTxs : ℤ
  maxGas : ℤ
deriving DecidableEq

structure TxSize where
  maxBytes : ℤ
  maxGas : ℤ
deriving DecidableEq

structure ConsensusParams where
  blockSize : BlockSize
  txSize : TxSize
  blockPartSizeBytes : ℤ
  evidenceMaxAge : ℤ
deriving DecidableEq

/-- `ConsensusParams{}`. -/
def ConsensusParams.empty : ConsensusParams := ⟨⟨0, 0, 0⟩, ⟨0, 0⟩, 0, 0⟩

/-- `abci.ConsensusParams`; its parts may be nil. -/
structure ConsensusParamUpdates where
  blockSize : Option BlockSize
  txSize : Option TxSize
  blockPartSizeBytes : Option ℤ
deriving DecidableEq

/-- The deterministic part of `abci.ResponseDeliverTx`. -/
structure ABCIResult where
  code : ℕ
  data : Bytes
deriving DecidableEq

structure ABCIResponses where
  deliverTx : List ABCIResult
  validatorUpdates : List Validators.TxBased.Validator
  consensusParamUpdates : Option ConsensusParamUpdates
deriving DecidableEq

/-- Encodings and Merkle hashes. -/
structure Wire (PubKey Signature Address : Type) where
  /-- The JSON text of `CanonicalJSONOnceVote`. -/
  canonicalJSON : String → CanonicalVote → Bytes
  /-- `merkle.SimpleProofsFromHashables` of parts with these bytes. -/
  simpleProofs : List Bytes → Bytes × List (List Bytes)
  precommitsHash : List (Option (Vote Signature Address)) → Bytes
  txsHash : List Bytes → Bytes
  evidenceHash : List (DuplicateVoteEvidence PubKey Signature Address) → Bytes
  headerHash : Header → Bytes
  validatorsHash : List (Address × PubKey × ℤ) → Bytes
  paramsHash : List (String × ℤ) → Bytes
  resultsHash : List ABCIResult → Bytes
  blockBytes : Block PubKey Signature Address → Bytes
  /-- A pointer that is not nil starts with a byte that says so. -/
  blockBytes_ne_nil : ∀ block, blockBytes block ≠ []
  readBlock : Bytes → Option (Block PubKey Signature Address)

variable {PubKey Signature Address : Type}

/-- `SignBytes` of a vote. -/
def Wire.signBytes (wire : Wire PubKey Signature Address) (chainID : String)
    (vote : Vote Signature Address) : Bytes := wire.canonicalJSON chainID vote.canonical

/-- `ConsensusParams.Hash`, which leaves the evidence age out. -/
def ConsensusParams.hash (params : ConsensusParams) (wire : Wire PubKey Signature Address) :
    Bytes :=
  wire.paramsHash
    [("block_gossip_part_size_bytes", params.blockPartSizeBytes),
      ("block_size_max_bytes", params.blockSize.maxBytes),
      ("block_size_max_gas", params.blockSize.maxGas),
      ("block_size_max_txs", params.blockSize.maxTxs),
      ("tx_size_max_bytes", params.txSize.maxBytes),
      ("tx_size_max_gas", params.txSize.maxGas)]

/-! ## Sample encodings -/

/-- The low byte of a number. -/
def sampleByte (x : ℤ) : UInt8 := UInt8.ofNat x.toNat

/-- Encodings that keep the numbers of what they encode, for numbers of one byte. -/
def sampleWire : Wire UInt8 UInt8 ℕ where
  canonicalJSON _ vote := [sampleByte vote.height, sampleByte vote.round]
  simpleProofs parts := (parts.flatten, parts.map fun _ ↦ [])
  precommitsHash precommits := 1 :: precommits.filterMap fun vote ↦ vote.map (·.signature)
  txsHash txs := 2 :: txs.flatten
  evidenceHash evidence := 3 :: evidence.map (·.pubKey)
  headerHash header := [4, sampleByte header.height, sampleByte header.time]
  validatorsHash members := 5 :: members.flatMap fun member ↦ [member.2.1, sampleByte member.2.2]
  paramsHash fields := 6 :: fields.map fun field ↦ sampleByte field.2
  resultsHash results := 7 :: results.map fun result ↦ UInt8.ofNat result.code
  blockBytes block := [8, sampleByte block.header.height, sampleByte block.header.time]
  blockBytes_ne_nil _ := List.cons_ne_nil _ _
  readBlock _ := none

end LkChain.Tendermint.Types
