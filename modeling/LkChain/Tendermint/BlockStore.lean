import LkChain.Tendermint.Blocks
import Mathlib.Logic.Function.Basic

/-!
# The block store

`blockchain.BlockStore`: for every height the meta data of a block, the parts that its bytes are
divided into, and the commits. A block is loaded by reading the bytes of its parts one after the
other. The descriptor is the height that a new store starts from.
-/

namespace LkChain.Tendermint.BlockStore

open Foundation Tendermint.Types
open Validators.ParseTx (Bytes)

variable {PubKey Signature Address Error : Type}

structure BlockMeta where
  blockID : BlockID
  header : Header
deriving DecidableEq

/-- The database of a block store, by the kinds of its keys. The commit of a block may be nil. -/
structure BlockDB (Signature Address : Type) where
  blockMeta : ℤ → Option BlockMeta
  part : ℤ → ℕ → Option Part
  commit : ℤ → Option (Option (Commit Signature Address))
  seenCommit : ℤ → Option (Commit Signature Address)
  descriptor : Option ℤ

/-- A database without blocks, at a height. -/
def BlockDB.startingAt (height : ℤ) : BlockDB Signature Address :=
  ⟨fun _ ↦ none, fun _ _ ↦ none, fun _ ↦ none, fun _ ↦ none, some height⟩

/-- `BlockStore`. -/
structure Store (Signature Address : Type) where
  db : BlockDB Signature Address
  height : ℤ

def newBlockStore (db : BlockDB Signature Address) : Store Signature Address :=
  ⟨db, db.descriptor.getD 0⟩

section Program

variable (wire : Wire PubKey Signature Address) (store : Store Signature Address)

/-- The loop of `LoadBlock`, which dereferences every part without looking. -/
def loadPartBytes (height : ℤ) (total : ℕ) : Fallible Error Bytes :=
  (List.range total).foldlM
    (fun bytez i ↦ match store.db.part height i with
      | none => .error (.panic .nilDereference)
      | some part => .ok (bytez ++ part.bytes)) []

def loadBlock (height : ℤ) : Fallible Error (Option (Block PubKey Signature Address)) :=
  match store.db.blockMeta height with
  | none => .ok none
  | some blockMeta => do
    let bytez ← loadPartBytes store height blockMeta.blockID.partsHeader.total.toNat
    match wire.readBlock bytez with
    | none => .error (.panic (.sanity "Error reading block"))
    | some block => .ok (some block)

/-- The store with the records of a block, whose hash has filled the header. -/
def withBlock (block : Block PubKey Signature Address) (hashed : Header) (hash : Bytes)
    (blockParts : PartSet) (seenCommit : Commit Signature Address) : Store Signature Address :=
  let height := block.header.height
  { db := {
      blockMeta := Function.update store.db.blockMeta height
        (some ⟨⟨hash, blockParts.header⟩, hashed⟩)
      part := fun h i ↦ if h = height ∧ i < blockParts.parts.length
        then (blockParts.parts[i]?).join else store.db.part h i
      commit := Function.update store.db.commit (height - 1) (some block.lastCommit)
      seenCommit := Function.update store.db.seenCommit height (some seenCommit)
      descriptor := some height }
    height := height }

/-- `SaveBlock` of a block that is not nil. -/
def saveBlock (block : Block PubKey Signature Address) (blockParts : PartSet)
    (seenCommit : Commit Signature Address) : Fallible Error (Store Signature Address) :=
  if block.header.height ≠ store.height + 1 then
    .error (.panic (.sanity "BlockStore can only save contiguous blocks"))
  else if !blockParts.isComplete then
    .error (.panic (.sanity "BlockStore can only save complete block part sets"))
  else do
    let (hashed, hash) ← block.hash wire
    return withBlock store block hashed.header hash blockParts seenCommit

def deleteBlock (height : ℤ) : Store Signature Address :=
  match store.db.blockMeta height with
  | none => store
  | some blockMeta => {
      db := {
        blockMeta := Function.update store.db.blockMeta height none
        part := fun h i ↦ if h = height ∧ i < blockMeta.blockID.partsHeader.total.toNat then none
          else store.db.part h i
        commit := Function.update store.db.commit height none
        seenCommit := Function.update store.db.seenCommit height none
        descriptor := store.db.descriptor }
      height := height - 1 }

end Program

/-! ## Reading back -/

section Loading

variable {wire : Wire PubKey Signature Address} {store after : Store Signature Address}
  {block : Block PubKey Signature Address} {parts : PartSet}
  {seenCommit : Commit Signature Address}

theorem loadPartBytes_eq {height : ℤ} {bytes : ℕ → Bytes} {total : ℕ}
    (hparts : ∀ i < total, ∃ part, store.db.part height i = some part ∧ part.bytes = bytes i) :
    (loadPartBytes store height total : Fallible Error Bytes) =
      .ok ((List.range total).map bytes).flatten := by
  unfold loadPartBytes
  induction total with
  | zero => rfl
  | succ total ih =>
    obtain ⟨part, hpart, hbytes⟩ := hparts total (Nat.lt_succ_self total)
    rw [List.range_succ, List.foldlM_append, ih fun i hi ↦ hparts i (Nat.lt_succ_of_lt hi),
      List.map_append, List.flatten_append]
    simp [hpart, hbytes]
    rfl

theorem parts_of_makePartSet {partSize : ℤ}
    (hparts : (block.makePartSet wire partSize : Fallible Error PartSet) = .ok parts) :
    parts.isComplete = true ∧
      ∃ bytes : ℕ → Bytes,
        (∀ i < parts.parts.length, ∃ part, parts.parts[i]? = some (some part) ∧
          part.bytes = bytes i) ∧
        ((List.range parts.parts.length).map bytes).flatten = wire.blockBytes block := by
  unfold Block.makePartSet newPartSetFromData at hparts
  split at hparts
  next => cases hparts
  next hsize =>
    split at hparts
    next => cases hparts
    next hbytes =>
      cases hparts
      have hpos : 0 < partSize.toNat := by omega
      refine ⟨by simp [PartSet.isComplete], chunk partSize.toNat (wire.blockBytes block), ?_, ?_⟩
      · intro i hi
        rw [List.length_map, List.length_range] at hi
        exact ⟨_, by rw [List.getElem?_map, List.getElem?_range hi, Option.map_some], rfl⟩
      · rw [List.length_map, List.length_range]
        exact flatten_all_chunks hpos _

theorem loadBlock_withBlock {hashed : Header} {hash : Bytes} {partSize : ℤ} {Error' : Type}
    (hparts : (block.makePartSet wire partSize : Fallible Error' PartSet) = .ok parts)
    (hread : wire.readBlock (wire.blockBytes block) = some block) :
    (loadBlock wire (withBlock store block hashed hash parts seenCommit) block.header.height :
      Fallible Error _) = .ok (some block) := by
  obtain ⟨-, bytes, hbytes, hflatten⟩ := parts_of_makePartSet hparts
  have hload : (loadPartBytes (withBlock store block hashed hash parts seenCommit)
      block.header.height parts.parts.length : Fallible Error Bytes) =
      .ok (wire.blockBytes block) := by
    rw [← hflatten]
    apply loadPartBytes_eq
    intro i hi
    obtain ⟨part, hpart, hsame⟩ := hbytes i hi
    refine ⟨part, ?_, hsame⟩
    unfold withBlock
    dsimp only
    rw [if_pos ⟨rfl, hi⟩, hpart, Option.join_some]
  have hmeta : (withBlock store block hashed hash parts seenCommit).db.blockMeta
      block.header.height = some ⟨⟨hash, parts.header⟩, hashed⟩ := Function.update_self _ _ _
  unfold loadBlock
  rw [hmeta]
  dsimp only
  rw [PartSet.header, Int.toNat_natCast, hload]
  show (match wire.readBlock (wire.blockBytes block) with
    | none => _
    | some block => _) = _
  rw [hread]

theorem withBlock_of_saveBlock
    (hsave : (saveBlock wire store block parts seenCommit : Fallible Error _) = .ok after) :
    block.header.height = store.height + 1 ∧
      ∃ hashed hash, (block.hash wire : Fallible Error _) = .ok (hashed, hash) ∧
        after = withBlock store block hashed.header hash parts seenCommit := by
  unfold saveBlock at hsave
  rw [Results.ite_error_eq_ok_iff, Results.ite_error_eq_ok_iff, Results.bind_eq_ok_iff] at hsave
  obtain ⟨hheight, -, ⟨hashed, hash⟩, hhash, hreturn⟩ := hsave
  cases hreturn
  exact ⟨not_not.mp hheight, hashed, hash, hhash, rfl⟩

theorem isComplete_of_saveBlock
    (hsave : (saveBlock wire store block parts seenCommit : Fallible Error _) = .ok after) :
    parts.isComplete = true := by
  unfold saveBlock at hsave
  rw [Results.ite_error_eq_ok_iff, Results.ite_error_eq_ok_iff, Bool.not_eq_true,
    Bool.not_eq_false'] at hsave
  exact hsave.2.1

theorem loadBlock_of_blockMeta_none {height : ℤ} (hnone : store.db.blockMeta height = none) :
    (loadBlock wire store height : Fallible Error _) = .ok none := by
  unfold loadBlock
  rw [hnone]

theorem blockMeta_of_loadBlock_none {height : ℤ}
    (hload : (loadBlock wire store height : Fallible Error _) = .ok none) :
    store.db.blockMeta height = none := by
  unfold loadBlock at hload
  split at hload
  next hnone => exact hnone
  next =>
    rw [Results.bind_eq_ok_iff] at hload
    obtain ⟨bytes, -, hblock⟩ := hload
    split at hblock
    next => cases hblock
    next => cases hblock

theorem loadPartBytes_congr {height : ℤ} {total : ℕ}
    (hsame : after.db.part height = store.db.part height) :
    (loadPartBytes after height total : Fallible Error Bytes) =
      loadPartBytes store height total := by
  unfold loadPartBytes
  rw [hsame]

theorem loadBlock_congr {height : ℤ} (hmeta : after.db.blockMeta height = store.db.blockMeta height)
    (hparts : after.db.part height = store.db.part height) :
    (loadBlock wire after height : Fallible Error _) = loadBlock wire store height := by
  unfold loadBlock
  rw [hmeta]
  simp only [loadPartBytes_congr hparts]

theorem loadBlock_withBlock_of_ne {hashed : Header} {hash : Bytes} {height : ℤ}
    (hne : height ≠ block.header.height) :
    (loadBlock wire (withBlock store block hashed hash parts seenCommit) height :
      Fallible Error _) = loadBlock wire store height := by
  apply loadBlock_congr
  · exact Function.update_of_ne hne _ _
  · funext i
    exact if_neg fun h ↦ hne h.1

theorem loadBlock_deleteBlock {height : ℤ} :
    (loadBlock wire (deleteBlock store height) height : Fallible Error _) = .ok none := by
  unfold deleteBlock
  cases hmeta : store.db.blockMeta height with
  | none => simp [loadBlock, hmeta]
  | some blockMeta => simp [loadBlock]

theorem loadBlock_deleteBlock_of_ne {height other : ℤ} (hne : other ≠ height) :
    (loadBlock wire (deleteBlock store height) other : Fallible Error _) =
      loadBlock wire store other := by
  unfold deleteBlock
  cases store.db.blockMeta height with
  | none => rfl
  | some blockMeta =>
    apply loadBlock_congr
    · exact Function.update_of_ne hne _ _
    · funext i
      exact if_neg fun h ↦ hne h.1

end Loading

end LkChain.Tendermint.BlockStore
