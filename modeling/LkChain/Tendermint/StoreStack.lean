import LkChain.Tendermint.BlockStore
import LkChain.Tendermint.Execution
import LkChain.Foundation.Schedules

/-!
# The block store as a stack

Blocks are saved one after the other and deleted from the top, so that a block store is to be a
stack of blocks with their parts and commits, which a new process finds again in the database.

Two things are forgotten by `DeleteBlock`. The commit that a block carries for its predecessor is
stored under the height of the predecessor, but what is deleted is the commit under the height of
the block itself: the commit of the deleted block can still be loaded, until the next block is
saved. And the descriptor is not written: a store that is opened before the next block is saved has
the height from before the deletion.
-/

namespace LkChain.Tendermint.BlockStore

open Foundation Foundation.Stops Tendermint.Types

variable {PubKey Signature Address : Type}

section Program

variable (store : Store Signature Address)

def loadBlockMeta (height : ℤ) : Option BlockMeta := store.db.blockMeta height

def loadBlockPart (height : ℤ) (index : ℕ) : Option Part := store.db.part height index

def loadBlockCommit (height : ℤ) : Option (Commit Signature Address) :=
    (store.db.commit height).join

def loadSeenCommit (height : ℤ) : Option (Commit Signature Address) := store.db.seenCommit height

end Program

/-- A database without anything in it. -/
def BlockDB.fresh : BlockDB Signature Address :=
  ⟨fun _ ↦ none, fun _ _ ↦ none, fun _ ↦ none, fun _ ↦ none, none⟩

/-! ## The stack -/

variable {wire : Wire PubKey Signature Address}

/-- What is saved: a block, parts that it can be read back from, and the commit that was seen. -/
structure Entry (wire : Wire PubKey Signature Address) where
  block : Block PubKey Signature Address
  parts : PartSet
  seenCommit : Commit Signature Address
  readable : wire.readBlock (parts.parts.flatMap fun part ↦ (part.map Part.bytes).getD []) =
    some block

/-- A block with the parts that `MakePartSet` cuts it into. -/
def Entry.ofMakePartSet (block : Block PubKey Signature Address) {parts : PartSet} (partSize : ℤ)
    (seenCommit : Commit Signature Address)
    (hparts : (block.makePartSet wire partSize : Fallible Empty PartSet) = .ok parts)
    (hread : wire.readBlock (wire.blockBytes block) = some block) : Entry wire where
  block := block
  parts := parts
  seenCommit := seenCommit
  readable := by
    obtain ⟨-, bytes, hbytes, hflatten⟩ := parts_of_makePartSet hparts
    rw [← hread, ← hflatten, List.flatMap_def]
    congr 2
    apply List.ext_getElem
    · rw [List.length_map, List.length_map, List.length_range]
    · intro i hi _
      rw [List.length_map] at hi
      obtain ⟨part, hpart, hsame⟩ := hbytes i hi
      rw [List.getElem?_eq_getElem hi, Option.some_inj] at hpart
      rw [List.getElem_map, List.getElem_map, List.getElem_range, hpart, Option.map_some,
        Option.getD_some, hsame]

/-- `NewBlockMeta`, unless the hash of the block panics. -/
def Entry.blockMeta (entry : Entry wire) : Option BlockMeta :=
  match (entry.block.hash wire : Fallible Empty _) with
  | .ok (hashed, hash) => some ⟨⟨hash, entry.parts.header⟩, hashed.header⟩
  | .error _ => none

def Entry.part (entry : Entry wire) (index : ℕ) : Option Part := (entry.parts.parts[index]?).join

/-- The entry of a height: the lowest one has the height one. The top of the stack comes first. -/
def entryAt : List (Entry wire) → ℤ → Option (Entry wire)
  | [], _ => none
  | top :: rest, height => if height = rest.length + 1 then some top else entryAt rest height

/-- What the store shows is what is on the stack; commits are compared for some heights. -/
structure Shows (store : Store Signature Address) (stack : List (Entry wire)) (heights : Set ℤ) :
    Prop where
  height : store.height = stack.length
  loadBlock : ∀ h, (loadBlock wire store h : Fallible Empty _) =
    .ok ((entryAt stack h).map Entry.block)
  loadBlockMeta : ∀ h, loadBlockMeta store h = (entryAt stack h).bind Entry.blockMeta
  loadBlockPart : ∀ h i, loadBlockPart store h i = (entryAt stack h).bind fun entry ↦ entry.part i
  loadSeenCommit : ∀ h, loadSeenCommit store h = (entryAt stack h).map Entry.seenCommit
  loadBlockCommit : ∀ h ∈ heights, loadBlockCommit store h =
    (entryAt stack (h + 1)).bind fun entry ↦ entry.block.lastCommit

/-! ## Operations -/

/-- Saving a block, deleting the top one, and opening the store again. -/
inductive StackOp (wire : Wire PubKey Signature Address) where
  | save (entry : Entry wire)
  | delete
  | reopen

def stackStep (store : Store Signature Address) :
    StackOp wire → Fallible Empty (Store Signature Address)
  | .save entry => saveBlock wire store entry.block entry.parts entry.seenCommit
  | .delete => .ok (deleteBlock store store.height)
  | .reopen => .ok (newBlockStore store.db)

/-- The stack, and the height that was written last. -/
structure Shelf (wire : Wire PubKey Signature Address) where
  stack : List (Entry wire)
  recorded : ℤ

def Shelf.empty : Shelf wire := ⟨[], 0⟩

def Shelf.step (shelf : Shelf wire) : StackOp wire → Shelf wire
  | .save entry => ⟨entry :: shelf.stack, shelf.stack.length + 1⟩
  | .delete => { shelf with stack := shelf.stack.tail }
  | .reopen => shelf

/-- The store is not opened between a deletion and the next block. -/
def Recorded (shelf : Shelf wire) : StackOp wire → Prop
  | .save _ => True
  | .delete => True
  | .reopen => shelf.recorded = shelf.stack.length

/-- In addition, no block is deleted that carries a commit. -/
def Careful (shelf : Shelf wire) : StackOp wire → Prop
  | .save _ => True
  | .delete => ∀ top ∈ shelf.stack.head?, top.block.lastCommit = none
  | .reopen => shelf.recorded = shelf.stack.length

/-! ## Heights of the stack -/

section Heights

variable {stack rest : List (Entry wire)} {entry top : Entry wire} {h : ℤ}

theorem entryAt_of_gt (hgt : (stack.length : ℤ) < h) : entryAt stack h = none := by
  induction stack with
  | nil => rfl
  | cons top rest ih =>
    rw [List.length_cons, Nat.cast_succ] at hgt
    rw [entryAt, if_neg (by omega)]
    exact ih (by omega)

theorem mem_of_entryAt (hentry : entryAt stack h = some entry) : entry ∈ stack := by
  induction stack with
  | nil => cases hentry
  | cons top rest ih =>
    rw [entryAt] at hentry
    split_ifs at hentry
    · cases hentry
      exact List.mem_cons_self
    · exact List.mem_cons_of_mem _ (ih hentry)

theorem entryAt_cons_self : entryAt (top :: rest) (rest.length + 1) = some top := if_pos rfl

theorem entryAt_cons_of_ne (hne : h ≠ rest.length + 1) :
    entryAt (top :: rest) h = entryAt rest h := if_neg hne

/-- What is kept for every height, when an entry is put on the stack. -/
theorem update_push {Value : Type} {read : Entry wire → Option Value} {kept : ℤ → Option Value}
    (hkept : ∀ h, kept h = (entryAt rest h).bind read) (h : ℤ) :
    Function.update kept (rest.length + 1) (read top) h = (entryAt (top :: rest) h).bind read := by
  by_cases heq : h = rest.length + 1
  · rw [heq, Function.update_self, entryAt_cons_self, Option.bind_some]
  · rw [Function.update_of_ne heq, entryAt_cons_of_ne heq, hkept]

/-- What is kept for every height, when the top of the stack is taken off. -/
theorem update_pop {Value : Type} {read : Entry wire → Option Value} {kept : ℤ → Option Value}
    (hkept : ∀ h, kept h = (entryAt (top :: rest) h).bind read) (h : ℤ) :
    Function.update kept (rest.length + 1) none h = (entryAt rest h).bind read := by
  by_cases heq : h = rest.length + 1
  · rw [heq, Function.update_self, entryAt_of_gt (lt_add_one _), Option.bind_none]
  · rw [Function.update_of_ne heq, hkept, entryAt_cons_of_ne heq]

end Heights

/-! ## What the database holds -/

/-- The parts are complete and the hash did not panic. -/
def Entry.Savable (entry : Entry wire) : Prop :=
  entry.blockMeta.isSome = true ∧ entry.parts.isComplete = true

/-- The records of the stack. The commit at the top may be left from a deleted block. -/
structure Holds (store : Store Signature Address) (shelf : Shelf wire) : Prop where
  height : store.height = shelf.stack.length
  descriptor : store.db.descriptor.getD 0 = shelf.recorded
  savable : ∀ entry ∈ shelf.stack, entry.Savable
  blockMeta : ∀ h, store.db.blockMeta h = (entryAt shelf.stack h).bind Entry.blockMeta
  part : ∀ h i, store.db.part h i = (entryAt shelf.stack h).bind fun entry ↦ entry.part i
  seenCommit : ∀ h, store.db.seenCommit h = (entryAt shelf.stack h).bind fun entry ↦
    some entry.seenCommit
  commit : ∀ h : ℤ, h ≠ shelf.stack.length →
    store.db.commit h = (entryAt shelf.stack (h + 1)).map fun entry ↦ entry.block.lastCommit

section Steps

variable {store after : Store Signature Address} {shelf : Shelf wire} {entry : Entry wire}

theorem holds_fresh : Holds (newBlockStore BlockDB.fresh) (.empty : Shelf wire) where
  height := rfl
  descriptor := rfl
  savable entry hmem := by cases hmem
  blockMeta _ := rfl
  part _ _ := rfl
  seenCommit _ := rfl
  commit _ _ := rfl

theorem Entry.total_of_blockMeta {blockMeta : BlockMeta}
    (hmeta : entry.blockMeta = some blockMeta) :
    blockMeta.blockID.partsHeader.total.toNat = entry.parts.parts.length := by
  unfold Entry.blockMeta at hmeta
  split at hmeta
  next =>
    cases hmeta
    exact Int.toNat_natCast _
  next => cases hmeta

theorem Entry.part_of_le {i : ℕ} (hle : entry.parts.parts.length ≤ i) : entry.part i = none := by
  unfold Entry.part
  rw [List.getElem?_eq_none hle, Option.join_none]

theorem Entry.part_of_savable (hsavable : entry.Savable) {i : ℕ}
    (hi : i < entry.parts.parts.length) : ∃ part, entry.part i = some part := by
  have hcomplete := List.all_eq_true.mp hsavable.2 _ (List.getElem_mem hi)
  obtain ⟨part, hpart⟩ := Option.isSome_iff_exists.mp hcomplete
  refine ⟨part, ?_⟩
  unfold Entry.part
  rw [List.getElem?_eq_getElem hi, hpart, Option.join_some]

theorem Entry.flatten_bytes :
    ((List.range entry.parts.parts.length).map fun i ↦
        ((entry.part i).map Part.bytes).getD []).flatten =
      entry.parts.parts.flatMap fun part ↦ (part.map Part.bytes).getD [] := by
  rw [List.flatMap_def]
  congr 1
  apply List.ext_getElem
  · rw [List.length_map, List.length_map, List.length_range]
  · intro i _ hi
    rw [List.length_map] at hi
    rw [List.getElem_map, List.getElem_map, List.getElem_range, Entry.part,
      List.getElem?_eq_getElem hi, Option.join_some]

theorem Holds.loadBlock (hholds : Holds store shelf) (h : ℤ) :
    (loadBlock wire store h : Fallible Empty _) =
      .ok ((entryAt shelf.stack h).map Entry.block) := by
  have hmeta := hholds.blockMeta h
  cases hentry : entryAt shelf.stack h with
  | none =>
    rw [hentry] at hmeta
    exact loadBlock_of_blockMeta_none hmeta
  | some entry =>
    rw [hentry, Option.bind_some] at hmeta
    have hsavable := hholds.savable entry (mem_of_entryAt hentry)
    obtain ⟨blockMeta, hblockMeta⟩ := Option.isSome_iff_exists.mp hsavable.1
    have hbytes : (loadPartBytes store h entry.parts.parts.length : Fallible Empty _) =
        .ok (entry.parts.parts.flatMap fun part ↦ (part.map Part.bytes).getD []) := by
      rw [← Entry.flatten_bytes]
      apply loadPartBytes_eq
      intro i hi
      obtain ⟨part, hpart⟩ := Entry.part_of_savable hsavable hi
      refine ⟨part, ?_, ?_⟩
      · rw [hholds.part, hentry, Option.bind_some, hpart]
      · rw [hpart, Option.map_some, Option.getD_some]
    unfold BlockStore.loadBlock
    rw [hmeta, hblockMeta]
    dsimp only
    rw [Entry.total_of_blockMeta hblockMeta]
    apply Results.bind_eq_ok_iff.mpr
    refine ⟨_, hbytes, ?_⟩
    rw [entry.readable]
    rfl

theorem Holds.shows (hholds : Holds store shelf) :
    Shows store shelf.stack {h | h ≠ shelf.stack.length} where
  height := hholds.height
  loadBlock := hholds.loadBlock
  loadBlockMeta := hholds.blockMeta
  loadBlockPart := hholds.part
  loadSeenCommit h := (hholds.seenCommit h).trans Option.map_eq_bind.symm
  loadBlockCommit h hne := by
    rw [BlockStore.loadBlockCommit, hholds.commit h hne]
    cases entryAt shelf.stack (h + 1) with
    | none => rfl
    | some entry => rfl

theorem Holds.shows_univ_iff (hholds : Holds store shelf) :
    Shows store shelf.stack Set.univ ↔ loadBlockCommit store shelf.stack.length = none := by
  have hnone : entryAt shelf.stack ((shelf.stack.length : ℤ) + 1) = none :=
    entryAt_of_gt (lt_add_one _)
  constructor
  · intro hshows
    rw [hshows.loadBlockCommit _ (Set.mem_univ _), hnone, Option.bind_none]
  · intro htop
    refine { hholds.shows with loadBlockCommit := fun h _ ↦ ?_ }
    by_cases heq : h = shelf.stack.length
    · rw [heq, htop, hnone, Option.bind_none]
    · exact hholds.shows.loadBlockCommit h heq

/-! ## One operation -/

theorem Holds.save (hholds : Holds store shelf)
    (hsave : stackStep store (.save entry) = .ok after) :
    Holds after (shelf.step (.save entry)) ∧
      loadBlockCommit after (shelf.stack.length + 1) = none := by
  have hcomplete := isComplete_of_saveBlock hsave
  obtain ⟨hheight, hashed, hash, hhash, rfl⟩ := withBlock_of_saveBlock hsave
  rw [hholds.height] at hheight
  have hmeta : entry.blockMeta = some ⟨⟨hash, entry.parts.header⟩, hashed.header⟩ := by
    unfold Entry.blockMeta
    rw [hhash]
  have hbelow : entry.block.header.height - 1 = shelf.stack.length := by omega
  have hnone : entryAt shelf.stack ((shelf.stack.length : ℤ) + 1) = none :=
    entryAt_of_gt (lt_add_one _)
  constructor
  · constructor
    case height => exact hheight.trans (Nat.cast_succ _).symm
    case descriptor => exact hheight
    case savable =>
      intro other hother
      rcases List.mem_cons.mp hother with rfl | hother
      · exact ⟨by rw [hmeta]; rfl, hcomplete⟩
      · exact hholds.savable other hother
    case blockMeta =>
      intro h
      show Function.update store.db.blockMeta entry.block.header.height _ h = _
      rw [hheight, ← hmeta]
      exact update_push hholds.blockMeta h
    case part =>
      intro h i
      show (if h = entry.block.header.height ∧ i < entry.parts.parts.length then entry.part i
        else store.db.part h i) =
          (entryAt (entry :: shelf.stack) h).bind fun entry ↦ entry.part i
      rw [hheight, hholds.part]
      by_cases heq : h = shelf.stack.length + 1
      · rw [heq, entryAt_cons_self, Option.bind_some, hnone]
        split_ifs with hi
        · rfl
        · exact (Entry.part_of_le (not_lt.mp fun hlt ↦ hi ⟨rfl, hlt⟩)).symm
      · rw [if_neg fun hi ↦ heq hi.1, entryAt_cons_of_ne heq]
    case seenCommit =>
      intro h
      show Function.update store.db.seenCommit entry.block.header.height _ h = _
      rw [hheight]
      exact update_push hholds.seenCommit h
    case commit =>
      intro h _
      show Function.update store.db.commit (entry.block.header.height - 1) _ h =
        (entryAt (entry :: shelf.stack) (h + 1)).map fun entry ↦ entry.block.lastCommit
      rw [hbelow]
      by_cases heq : h = shelf.stack.length
      · rw [heq, Function.update_self, entryAt_cons_self, Option.map_some]
      · rw [Function.update_of_ne heq, entryAt_cons_of_ne (by omega), hholds.commit h heq]
  · show (Function.update store.db.commit (entry.block.header.height - 1) _ _).join = none
    rw [hbelow, Function.update_of_ne (by omega), hholds.commit _ (by omega),
      entryAt_of_gt (by omega), Option.map_none, Option.join_none]

theorem Holds.delete_nil (hholds : Holds store shelf) (hnil : shelf.stack = []) :
    deleteBlock store store.height = store := by
  have hmeta := hholds.blockMeta store.height
  rw [hnil] at hmeta
  unfold deleteBlock
  rw [hmeta]
  rfl

theorem Holds.delete {rest : List (Entry wire)} {recorded : ℤ}
    (hholds : Holds store ⟨entry :: rest, recorded⟩) :
    Holds (deleteBlock store store.height) ⟨rest, recorded⟩ ∧
      loadBlockCommit (deleteBlock store store.height) rest.length = entry.block.lastCommit := by
  have hheight : store.height = rest.length + 1 := hholds.height.trans (Nat.cast_succ _)
  obtain ⟨blockMeta, hblockMeta⟩ :=
    Option.isSome_iff_exists.mp (hholds.savable entry List.mem_cons_self).1
  have hmeta : store.db.blockMeta (rest.length + 1) = some blockMeta := by
    rw [hholds.blockMeta, entryAt_cons_self, Option.bind_some, hblockMeta]
  have hnone : entryAt rest ((rest.length : ℤ) + 1) = none := entryAt_of_gt (lt_add_one _)
  unfold deleteBlock
  rw [hheight, hmeta]
  dsimp only
  constructor
  · constructor
    case height => exact add_sub_cancel_right _ _
    case descriptor => exact hholds.descriptor
    case savable => exact fun other hother ↦ hholds.savable other (List.mem_cons_of_mem _ hother)
    case blockMeta => exact update_pop hholds.blockMeta
    case part =>
      intro h i
      dsimp only
      rw [hholds.part, Entry.total_of_blockMeta hblockMeta]
      by_cases heq : h = rest.length + 1
      · rw [heq, hnone, entryAt_cons_self, Option.bind_none, Option.bind_some]
        split_ifs with hi
        · rfl
        · exact Entry.part_of_le (not_lt.mp fun hlt ↦ hi ⟨rfl, hlt⟩)
      · rw [if_neg fun hi ↦ heq hi.1, entryAt_cons_of_ne heq]
    case seenCommit => exact update_pop hholds.seenCommit
    case commit =>
      intro h hne
      dsimp only at hne ⊢
      by_cases heq : h = rest.length + 1
      · rw [heq, Function.update_self, entryAt_of_gt (by omega), Option.map_none]
      · rw [Function.update_of_ne heq, hholds.commit h (by simpa using heq),
          entryAt_cons_of_ne (by omega)]
  · have hcommit := hholds.commit rest.length (by simp)
    rw [entryAt_cons_self] at hcommit
    show (Function.update store.db.commit _ none _).join = _
    rw [Function.update_of_ne (by omega), hcommit, Option.map_some, Option.join_some]

/-- The records follow the stack, as long as the store is opened with the height that was
written. -/
theorem Holds.step (hholds : Holds store shelf) {op : StackOp wire} (hrecorded : Recorded shelf op)
    (hstep : stackStep store op = .ok after) : Holds after (shelf.step op) := by
  cases op with
  | save entry => exact (hholds.save hstep).1
  | delete =>
    cases hstep
    obtain ⟨stack, recorded⟩ := shelf
    cases stack with
    | nil =>
      rw [hholds.delete_nil rfl]
      exact hholds
    | cons entry rest => exact hholds.delete.1
  | reopen =>
    cases hstep
    exact { hholds with height := hholds.descriptor.trans hrecorded }

theorem Careful.recorded {op : StackOp wire} (hcareful : Careful shelf op) : Recorded shelf op := by
  cases op with
  | save entry => trivial
  | delete => trivial
  | reopen => exact hcareful

/-- One operation keeps the agreement exactly when it is careful. -/
theorem Holds.shows_step_iff (hholds : Holds store shelf)
    (hshows : Shows store shelf.stack Set.univ) {op : StackOp wire}
    (hstep : stackStep store op = .ok after) :
    Shows after (shelf.step op).stack Set.univ ↔ Careful shelf op := by
  cases op with
  | save entry =>
    have hsave := hholds.save hstep
    have htop : loadBlockCommit after ((shelf.step (.save entry)).stack.length : ℤ) = none := by
      rw [← hsave.2]
      congr 1
    exact ⟨fun _ ↦ trivial, fun _ ↦ hsave.1.shows_univ_iff.mpr htop⟩
  | delete =>
    cases hstep
    obtain ⟨stack, recorded⟩ := shelf
    cases stack with
    | nil =>
      rw [hholds.delete_nil rfl]
      exact ⟨fun _ top htop ↦ (by cases htop), fun _ ↦ hshows⟩
    | cons entry rest =>
      obtain ⟨hdeleted, hleft⟩ := hholds.delete
      refine hdeleted.shows_univ_iff.trans ?_
      rw [hleft]
      exact ⟨fun hnil top htop ↦ (by cases htop; exact hnil), fun hcareful ↦ hcareful entry rfl⟩
  | reopen =>
    cases hstep
    constructor
    · intro hreopened
      exact hholds.descriptor.symm.trans hreopened.height
    · intro hcareful
      exact { hshows with height := hholds.descriptor.trans hcareful }

end Steps

/-! ## Runs -/

variable {store final : Store Signature Address} {shelf : Shelf wire} {ops : List (StackOp wire)}

/-- From agreement, the store and the stack agree at all times exactly when the run is careful. -/
theorem Holds.shows_run_iff (hholds : Holds store shelf) (hshows : Shows store shelf.stack Set.univ)
    (hrun : Schedules.run stackStep store ops = .ok final) :
    (∀ n mid, Schedules.run stackStep store (ops.take n) = .ok mid →
        Shows mid ((ops.take n).foldl Shelf.step shelf).stack Set.univ) ↔
      Schedules.Throughout Shelf.step Careful shelf ops := by
  refine Schedules.agrees_iff_throughout
    (fun store shelf ↦ Holds store shelf ∧ Shows store shelf.stack Set.univ)
    (fun store shelf ↦ Shows store shelf.stack Set.univ) (fun _ _ h ↦ h.2) ?_ ?_
    ⟨hholds, hshows⟩ hrun
  · intro store shelf op after hsame hcareful hstep
    exact ⟨hsame.1.step hcareful.recorded hstep,
      (hsame.1.shows_step_iff hsame.2 hstep).mpr hcareful⟩
  · intro store shelf op after hsame hstep hafter
    exact (hsame.1.shows_step_iff hsame.2 hstep).mp hafter

theorem Holds.run (hholds : Holds store shelf)
    (hrecorded : Schedules.Throughout Shelf.step Recorded shelf ops)
    (hrun : Schedules.run stackStep store ops = .ok final) :
    Holds final (ops.foldl Shelf.step shelf) :=
  Schedules.simulates_throughout Holds
    (fun _ _ _ _ hholds hrecorded hstep ↦ hholds.step hrecorded hstep) hholds hrecorded hrun

/-- In a run without a panic the store is the stack at all times exactly when no block is deleted
that carries a commit and the store is not opened between a deletion and the next block. When only
the second holds, at most the commit for the top of the stack is wrong. -/
theorem blockStore_stack_iff
    (hrun : Schedules.run stackStep (newBlockStore .fresh) ops = .ok final) :
    ((∀ n mid, Schedules.run stackStep (newBlockStore .fresh) (ops.take n) = .ok mid →
        Shows mid ((ops.take n).foldl Shelf.step .empty).stack Set.univ) ↔
      Schedules.Throughout Shelf.step Careful .empty ops) ∧
    (Schedules.Throughout Shelf.step Recorded .empty ops →
      Shows final (ops.foldl Shelf.step .empty).stack
        {h | h ≠ (ops.foldl Shelf.step .empty).stack.length}) := by
  have hshows : Shows (newBlockStore .fresh) (Shelf.empty : Shelf wire).stack Set.univ :=
    holds_fresh.shows_univ_iff.mpr rfl
  exact ⟨holds_fresh.shows_run_iff hshows hrun,
    fun hrecorded ↦ (holds_fresh.run hrecorded hrun).shows⟩

/-- The first sample block, in one part. -/
def firstEntry : Entry Execution.twoBlockWire :=
  .ofMakePartSet (Execution.firstBlock 0) 10 (Execution.sampleCommit 1) rfl rfl

/-- The second sample block, which carries a commit for the first one. -/
def secondEntry : Entry Execution.twoBlockWire :=
  .ofMakePartSet (Execution.secondBlock "second") 10 (Execution.sampleCommit 2) rfl rfl

/-- Two blocks are saved and the store is opened again. -/
theorem blockStore_stack_two :
    let ops : List (StackOp Execution.twoBlockWire) :=
      [.save firstEntry, .save secondEntry, .reopen]
    ∃ final, Schedules.run stackStep (newBlockStore .fresh) ops = .ok final ∧
      Shows final [secondEntry, firstEntry] Set.univ := by
  intro ops
  have hcareful : Schedules.Throughout Shelf.step Careful .empty ops :=
    ⟨trivial, trivial, rfl, trivial⟩
  refine ⟨_, rfl, ?_⟩
  exact (blockStore_stack_iff rfl).1.mpr hcareful 3 _ rfl

/-- When the second block is deleted, the commit that it carried is still loaded, and a store that
is opened on the database has the height 2. -/
theorem loadBlockCommit_of_deleted :
    ∃ final, Schedules.run stackStep (newBlockStore .fresh)
        [.save firstEntry, .save secondEntry, .delete] = .ok final ∧
      final.height = 1 ∧ loadBlockMeta final 2 = none ∧
      loadBlockCommit final 1 = some (Execution.sampleCommit 1) ∧
      (newBlockStore final.db).height = 2 :=
  ⟨_, rfl, rfl, rfl, rfl, rfl⟩

end LkChain.Tendermint.BlockStore
