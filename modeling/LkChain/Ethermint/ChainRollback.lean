import LkChain.Ethereum.State

/-!
# Rolling the Ethereum chain back

The command `ethermint rollback` takes the database of a stopped node back to a number: block after
block from the top, the three head pointers are moved to the parents of what they point to, and the
data of the canonical block of the number is deleted. The loop starts at the number of the head fast
block, whatever the others are, and the three pointers move by the same number of blocks. The hash
that the database has for a number is never deleted.
-/

namespace LkChain.Ethermint.ChainRollback

open Ethereum.State (Hash Bytes)

variable {Body Receipts : Type}

/-- `types.Header`; of its other fields only the hash depends. -/
structure Header where
  parentHash : Hash
  number : ℕ
  content : Bytes
deriving DecidableEq

structure Block (Body : Type) where
  header : Header
  body : Body

/-- The chain database, by the kinds of its keys. -/
structure ChainDB (Body Receipts : Type) where
  canonical : ℕ → Option Hash
  number : Hash → Option ℕ
  header : ℕ → Hash → Option Header
  body : ℕ → Hash → Option Body
  receipts : ℕ → Hash → Option Receipts
  td : ℕ → Hash → Option ℕ
  headHeader : Option Hash
  headBlock : Option Hash
  headFast : Option Hash

def missingNumber : ℕ := 2 ^ 64 - 1

section Database

variable (db : ChainDB Body Receipts)

def getCanonicalHash (number : ℕ) : Hash := (db.canonical number).getD 0

def getBlockNumber (hash : Hash) : ℕ := (db.number hash).getD missingNumber

def getHeadHeaderHash : Hash := db.headHeader.getD 0

def getHeadBlockHash : Hash := db.headBlock.getD 0

def getHeadFastBlockHash : Hash := db.headFast.getD 0

def getBlock (hash : Hash) (number : ℕ) : Option (Block Body) :=
  match db.header number hash, db.body number hash with
  | some header, some body => some ⟨header, body⟩
  | _, _ => none

/-- A table without the data of a block. -/
def erase {Value : Type} (table : ℕ → Hash → Option Value) (hash : Hash) (number : ℕ) :
    ℕ → Hash → Option Value :=
  fun m h ↦ if m = number ∧ h = hash then none else table m h

def deleteBlock (hash : Hash) (number : ℕ) : ChainDB Body Receipts :=
  { db with
    receipts := erase db.receipts hash number
    number := Function.update db.number hash none
    header := erase db.header hash number
    body := erase db.body hash number
    td := erase db.td hash number }

end Database

/-! ## The command -/

/-- The database and the three variables of the command. -/
structure Cursor (Body Receipts : Type) where
  db : ChainDB Body Receipts
  currentHeader : Header
  currentBlock : Block Body
  currentFastBlock : Block Body

inductive RollbackError where
  | parentHeadNotFound (height : ℕ)
  | parentBlockNotFound (height : ℕ)
  | parentFastBlockNotFound (height : ℕ)
deriving DecidableEq

/-- What the command ends with, other than its end. -/
inductive Fatal where
  | headBlockHashNotFound
  | rollbackHeight (rollbackBlockNum blockNum : ℕ)
  | headBlockNotFound
  | rollback (height : ℕ) (error : RollbackError)
deriving DecidableEq

section Program

variable (hashOf : Header → Hash)

/-- The number before, as an unsigned number of 64 bits. -/
def before (number : ℕ) : ℕ := (number + (2 ^ 64 - 1)) % 2 ^ 64

/-- The part of `rollbackBlock` that moves the head header. -/
def moveHeader (cursor : Cursor Body Receipts) : Option (Cursor Body Receipts) :=
  (cursor.db.header (before cursor.currentHeader.number) cursor.currentHeader.parentHash).map
    fun header ↦ { cursor with
      db := { cursor.db with headHeader := some (hashOf header) }
      currentHeader := header }

/-- The part of `rollbackBlock` that moves the head block. -/
def moveBlock (cursor : Cursor Body Receipts) : Option (Cursor Body Receipts) :=
  (getBlock cursor.db cursor.currentBlock.header.parentHash
    (before cursor.currentBlock.header.number)).map
    fun block ↦ { cursor with
      db := { cursor.db with headBlock := some (hashOf block.header) }
      currentBlock := block }

/-- The part of `rollbackBlock` that moves the head fast block. -/
def moveFastBlock (cursor : Cursor Body Receipts) : Option (Cursor Body Receipts) :=
  (getBlock cursor.db cursor.currentFastBlock.header.parentHash
    (before cursor.currentFastBlock.header.number)).map
    fun block ↦ { cursor with
      db := { cursor.db with headFast := some (hashOf block.header) }
      currentFastBlock := block }

/-- `rollbackBlock`. What it has written before an error stays. -/
def rollbackBlock (cursor : Cursor Body Receipts) (number : ℕ) :
    Cursor Body Receipts × Option RollbackError :=
  let hash := getCanonicalHash cursor.db number
  if hash = 0 then (cursor, none)
  else
    match moveHeader hashOf cursor with
    | none => (cursor, some (.parentHeadNotFound cursor.currentHeader.number))
    | some cursor =>
      match moveBlock hashOf cursor with
      | none => (cursor, some (.parentBlockNotFound cursor.currentBlock.header.number))
      | some cursor =>
        match moveFastBlock hashOf cursor with
        | none => (cursor, some (.parentFastBlockNotFound cursor.currentFastBlock.header.number))
        | some cursor => ({ cursor with db := deleteBlock cursor.db hash number }, none)

/-- The loop over so many numbers above the target, the highest one first. -/
def rollbackBlocks (target : ℕ) :
    ℕ → Cursor Body Receipts → Cursor Body Receipts × Option Fatal
  | 0, cursor => (cursor, none)
  | count + 1, cursor =>
    match rollbackBlock hashOf cursor (target + count + 1) with
    | (cursor, some error) => (cursor, some (.rollback (target + count + 1) error))
    | (cursor, none) => rollbackBlocks target count cursor

/-- The head header and its number, or those from before. -/
def readHeader (db : ChainDB Body Receipts) (fallback : Header) (blockNum : ℕ) : Header × ℕ :=
  let headHash := getHeadHeaderHash db
  if headHash = 0 then (fallback, blockNum)
  else
    let blockNum := getBlockNumber db headHash
    ((db.header blockNum headHash).getD fallback, blockNum)

/-- The head fast block and its number, or those from before. -/
def readFastBlock (db : ChainDB Body Receipts) (fallback : Block Body) (blockNum : ℕ) :
    Block Body × ℕ :=
  let fastBlockHash := getHeadFastBlockHash db
  if fastBlockHash = 0 then (fallback, blockNum)
  else
    let blockNum := getBlockNumber db fastBlockHash
    ((getBlock db fastBlockHash blockNum).getD fallback, blockNum)

/-- `rollbackCmd`: the database at its end, and what it ends with. -/
def rollbackCmd (db : ChainDB Body Receipts) (rollbackBlockNum : ℕ) :
    ChainDB Body Receipts × Option Fatal :=
  if rollbackBlockNum = 0 then (db, none)
  else
    let blockHash := getHeadBlockHash db
    if blockHash = 0 then (db, some .headBlockHashNotFound)
    else
      let blockNum := getBlockNumber db blockHash
      if blockNum ≤ rollbackBlockNum then (db, some (.rollbackHeight rollbackBlockNum blockNum))
      else
        match getBlock db blockHash blockNum with
        | none => (db, some .headBlockNotFound)
        | some currentBlock =>
          let (currentHeader, blockNum) := readHeader db currentBlock.header blockNum
          let (currentFastBlock, blockNum) := readFastBlock db currentBlock blockNum
          let (cursor, fatal) := rollbackBlocks hashOf rollbackBlockNum
            (blockNum - rollbackBlockNum) ⟨db, currentHeader, currentBlock, currentFastBlock⟩
          (cursor.db, fatal)

end Program

/-! ## Canonical chains -/

/-- The database has a canonical chain, with headers up to a top and with bodies up to some
number. -/
structure CanonicalChain (hashOf : Header → Hash) (db : ChainDB Body Receipts)
    (chain : ℕ → Header) (top full : ℕ) : Prop where
  number : ∀ i ≤ top, (chain i).number = i
  parent : ∀ i < top, (chain (i + 1)).parentHash = hashOf (chain i)
  nonzero : ∀ i ≤ top, hashOf (chain i) ≠ 0
  canonical : ∀ i ≤ top, db.canonical i = some (hashOf (chain i))
  numberOf : ∀ i ≤ top, db.number (hashOf (chain i)) = some i
  header : ∀ i ≤ top, db.header i (hashOf (chain i)) = some (chain i)
  body : ∀ i ≤ full, ∃ body, db.body i (hashOf (chain i)) = some body
  full_le : full ≤ top
  top_lt : top < missingNumber
  missing : ∀ hash, db.header missingNumber hash = none

/-- The blocks of the chain that the heads point to. -/
structure Heads (hashOf : Header → Hash) (db : ChainDB Body Receipts) (chain : ℕ → Header)
    (header block fast : ℕ) : Prop where
  headHeader : db.headHeader = some (hashOf (chain header))
  headBlock : db.headBlock = some (hashOf (chain block))
  headFast : db.headFast = some (hashOf (chain fast))

/-- What a rollback is to achieve: the heads are the block of the target, and nothing above it can
be read. -/
structure RolledBack (hashOf : Header → Hash) (chain : ℕ → Header) (target : ℕ)
    (db : ChainDB Body Receipts) : Prop where
  heads : Heads hashOf db chain target target target
  canonical : ∀ m, target < m → getCanonicalHash db m = 0
  header : ∀ m hash, target < m → db.header m hash = none
  body : ∀ m hash, target < m → db.body m hash = none
  receipts : ∀ m hash, target < m → db.receipts m hash = none

/-- A table without the canonical blocks between two numbers. -/
def Cleared {Value : Type} (hashOf : Header → Hash) (chain : ℕ → Header) (low high : ℕ)
    (table left : ℕ → Hash → Option Value) : Prop :=
  ∀ m hash, left m hash =
    if low < m ∧ m ≤ high ∧ hash = hashOf (chain m) then none else table m hash

section Tables

variable {Value : Type} {hashOf : Header → Hash} {chain : ℕ → Header} {low high : ℕ}
  {table left : ℕ → Hash → Option Value}

theorem cleared_refl : Cleared hashOf chain high high table table :=
  fun _ _ ↦ (if_neg fun h ↦ absurd (lt_of_lt_of_le h.1 h.2.1) (lt_irrefl _)).symm

theorem Cleared.of_le (hcleared : Cleared hashOf chain low high table left) {m : ℕ} (hm : m ≤ low)
    (hash : Hash) : left m hash = table m hash :=
  (hcleared m hash).trans (if_neg fun h ↦ absurd h.1 (not_lt.mpr hm))

theorem Cleared.some (hcleared : Cleared hashOf chain low high table left) {m : ℕ} {hash : Hash}
    {value : Value} (hsome : left m hash = some value) : table m hash = some value := by
  rw [hcleared] at hsome
  split at hsome
  next => cases hsome
  next => exact hsome

theorem Cleared.erase (hcleared : Cleared hashOf chain (low + 1) high table left)
    (hlow : low + 1 ≤ high) :
    Cleared hashOf chain low high table (erase left (hashOf (chain (low + 1))) (low + 1)) := by
  intro m hash
  unfold ChainRollback.erase
  rw [hcleared]
  by_cases hm : m = low + 1
  · subst hm
    by_cases hhash : hash = hashOf (chain (low + 1))
    · rw [if_pos ⟨rfl, hhash⟩, if_pos ⟨Nat.lt_succ_self _, hlow, hhash⟩]
    · rw [if_neg fun h ↦ hhash h.2, if_neg fun h ↦ hhash h.2.2, if_neg fun h ↦ hhash h.2.2]
  · rw [if_neg fun h ↦ hm h.1]
    have hiff : low + 1 < m ↔ low < m := by omega
    simp only [hiff]

end Tables

/-! ## One block -/

/-- The command has come down to a number: the head fast block is there, the other two heads are
somewhere on the chain, and the canonical blocks from there to the start of the loop are deleted. -/
structure Reached (hashOf : Header → Hash) (start : ChainDB Body Receipts) (chain : ℕ → Header)
    (high floor header block : ℕ) (cursor : Cursor Body Receipts) : Prop where
  currentHeader : cursor.currentHeader = chain header
  currentBlock : cursor.currentBlock.header = chain block
  currentFastBlock : cursor.currentFastBlock.header = chain floor
  heads : Heads hashOf cursor.db chain header block floor
  canonical : cursor.db.canonical = start.canonical
  headers : Cleared hashOf chain floor high start.header cursor.db.header
  bodies : Cleared hashOf chain floor high start.body cursor.db.body
  receipts : Cleared hashOf chain floor high start.receipts cursor.db.receipts

section Steps

variable {hashOf : Header → Hash} {start : ChainDB Body Receipts} {chain : ℕ → Header}
  {top full high floor x y target : ℕ} {cursor : Cursor Body Receipts}

theorem CanonicalChain.hash_inj (hchain : CanonicalChain hashOf start chain top full) {i j : ℕ}
    (hi : i ≤ top) (hj : j ≤ top) (hsame : hashOf (chain i) = hashOf (chain j)) : i = j := by
  have hnumber := hchain.numberOf i hi
  rw [hsame, hchain.numberOf j hj] at hnumber
  exact (Option.some.inj hnumber).symm

theorem before_succ {i : ℕ} (hi : i < missingNumber) : before (i + 1) = i := by
  unfold before
  unfold missingNumber at hi
  omega

theorem CanonicalChain.parent_of_some (hchain : CanonicalChain hashOf start chain top full)
    (hx : x ≤ top) {left : ℕ → Hash → Option Header}
    (hleft : Cleared hashOf chain floor high start.header left) {header : Header}
    (hfound : left (before (chain x).number) (chain x).parentHash = some header) :
    ∃ p, x = p + 1 ∧ header = chain p := by
  have hheader := hleft.some hfound
  rw [hchain.number x hx] at hheader
  cases x with
  | zero => cases (hchain.missing _).symm.trans hheader
  | succ p =>
    rw [before_succ (lt_of_lt_of_le (lt_of_lt_of_le (Nat.lt_succ_self p) hx) hchain.top_lt.le),
      hchain.parent p hx, hchain.header p (Nat.le_of_succ_le hx)] at hheader
    exact ⟨p, rfl, (Option.some.inj hheader).symm⟩

theorem CanonicalChain.exists_parent (hchain : CanonicalChain hashOf start chain top full)
    (hx : x + 1 ≤ top) {left : ℕ → Hash → Option Header}
    (hleft : Cleared hashOf chain (x + 1) high start.header left) :
    left (before (chain (x + 1)).number) (chain (x + 1)).parentHash = some (chain x) := by
  rw [hchain.number _ hx, hchain.parent x hx,
    before_succ (lt_of_lt_of_le (lt_of_lt_of_le (Nat.lt_succ_self x) hx) hchain.top_lt.le),
    hleft.of_le (Nat.le_succ x), hchain.header x (Nat.le_of_succ_le hx)]

theorem getBlock_eq_some {db : ChainDB Body Receipts} {hash : Hash} {number : ℕ}
    {block : Block Body} (hblock : getBlock db hash number = some block) :
    db.header number hash = some block.header := by
  unfold getBlock at hblock
  split at hblock
  next header body hheader hbody =>
    cases hblock
    exact hheader
  next => cases hblock

theorem CanonicalChain.exists_parentBlock (hchain : CanonicalChain hashOf start chain top full)
    (hx : x + 1 ≤ full) {db : ChainDB Body Receipts}
    (hheaders : Cleared hashOf chain (x + 1) high start.header db.header)
    (hbodies : Cleared hashOf chain (x + 1) high start.body db.body) :
    ∃ block, getBlock db (chain (x + 1)).parentHash (before (chain (x + 1)).number) =
      some block := by
  have htop := hx.trans hchain.full_le
  obtain ⟨body, hbody⟩ := hchain.body x (Nat.le_of_succ_le hx)
  have hheader := hchain.exists_parent htop hheaders
  have hfound : db.body (before (chain (x + 1)).number) (chain (x + 1)).parentHash = some body := by
    rw [hchain.number _ htop, hchain.parent x htop,
      before_succ (lt_of_lt_of_le (lt_of_lt_of_le (Nat.lt_succ_self x) htop) hchain.top_lt.le),
      hbodies.of_le (Nat.le_succ x), hbody]
  unfold getBlock
  rw [hheader, hfound]
  exact ⟨_, rfl⟩

theorem moveHeader_cases (hchain : CanonicalChain hashOf start chain top full) (hx : x ≤ top)
    (hcurrent : cursor.currentHeader = chain x)
    (hheaders : Cleared hashOf chain (floor + 1) high start.header cursor.db.header) :
    moveHeader hashOf cursor = none ∧ x ≠ floor + 1 ∨
      ∃ p, x = p + 1 ∧ moveHeader hashOf cursor = some { cursor with
        db := { cursor.db with headHeader := some (hashOf (chain p)) }
        currentHeader := chain p } := by
  unfold moveHeader
  rw [hcurrent]
  cases hfound : cursor.db.header (before (chain x).number) (chain x).parentHash with
  | none =>
    refine .inl ⟨rfl, fun hx' ↦ ?_⟩
    subst hx'
    cases hfound.symm.trans (hchain.exists_parent hx hheaders)
  | some header =>
    obtain ⟨p, hp, rfl⟩ := hchain.parent_of_some hx hheaders hfound
    exact .inr ⟨p, hp, rfl⟩

theorem parentBlock_cases (hchain : CanonicalChain hashOf start chain top full) (hx : x ≤ top)
    (hfloor : floor + 1 ≤ full) {db : ChainDB Body Receipts}
    (hheaders : Cleared hashOf chain (floor + 1) high start.header db.header)
    (hbodies : Cleared hashOf chain (floor + 1) high start.body db.body) :
    getBlock db (chain x).parentHash (before (chain x).number) = none ∧ x ≠ floor + 1 ∨
      ∃ p block, x = p + 1 ∧ block.header = chain p ∧
        getBlock db (chain x).parentHash (before (chain x).number) = some block := by
  cases hfound : getBlock db (chain x).parentHash (before (chain x).number) with
  | none =>
    refine .inl ⟨rfl, fun hx' ↦ ?_⟩
    subst hx'
    obtain ⟨block, hblock⟩ := hchain.exists_parentBlock hfloor hheaders hbodies
    cases hfound.symm.trans hblock
  | some block =>
    obtain ⟨p, hp, hheader⟩ := hchain.parent_of_some hx hheaders (getBlock_eq_some hfound)
    exact .inr ⟨p, block, hp, hheader, rfl⟩

theorem moveBlock_cases (hchain : CanonicalChain hashOf start chain top full) (hy : y ≤ top)
    (hfloor : floor + 1 ≤ full) (cursor : Cursor Body Receipts)
    (hcurrent : cursor.currentBlock.header = chain y)
    (hheaders : Cleared hashOf chain (floor + 1) high start.header cursor.db.header)
    (hbodies : Cleared hashOf chain (floor + 1) high start.body cursor.db.body) :
    moveBlock hashOf cursor = none ∧ y ≠ floor + 1 ∨
      ∃ q block, y = q + 1 ∧ block.header = chain q ∧ moveBlock hashOf cursor = some { cursor with
        db := { cursor.db with headBlock := some (hashOf (chain q)) }
        currentBlock := block } := by
  unfold moveBlock
  rw [hcurrent]
  rcases parentBlock_cases hchain hy hfloor hheaders hbodies with
    ⟨hnone, hne⟩ | ⟨q, block, hq, hheader, hblock⟩
  · exact .inl ⟨by rw [hnone]; rfl, hne⟩
  · exact .inr ⟨q, block, hq, hheader, by rw [hblock, ← hheader]; rfl⟩

/-- The head fast block is always at the block that the loop has come to. -/
theorem moveFastBlock_eq (hchain : CanonicalChain hashOf start chain top full)
    (hfloor : floor + 1 ≤ full) (cursor : Cursor Body Receipts)
    (hcurrent : cursor.currentFastBlock.header = chain (floor + 1))
    (hheaders : Cleared hashOf chain (floor + 1) high start.header cursor.db.header)
    (hbodies : Cleared hashOf chain (floor + 1) high start.body cursor.db.body) :
    ∃ block, block.header = chain floor ∧ moveFastBlock hashOf cursor = some { cursor with
      db := { cursor.db with headFast := some (hashOf (chain floor)) }
      currentFastBlock := block } := by
  unfold moveFastBlock
  rw [hcurrent]
  rcases parentBlock_cases hchain (hfloor.trans hchain.full_le) hfloor hheaders hbodies with
    ⟨hnone, hne⟩ | ⟨q, block, hq, hheader, hblock⟩
  · exact absurd rfl hne
  · cases hq
    exact ⟨block, hheader, by rw [hblock, ← hheader]; rfl⟩

/-- What `rollbackBlock` does: it moves the three heads down and deletes the block, or it stops with
the head fast block where it was. It does not stop when the heads are at the same block. -/
theorem Reached.rollbackBlock (hchain : CanonicalChain hashOf start chain top full)
    (hreached : Reached hashOf start chain high (floor + 1) x y cursor) (hfloor : floor + 1 ≤ high)
    (hhigh : high ≤ full) (hx : x ≤ top) (hy : y ≤ top) :
    ∃ after error, rollbackBlock hashOf cursor (floor + 1) = (after, error) ∧
      after.db.canonical = start.canonical ∧
      ((∃ p q, x = p + 1 ∧ y = q + 1 ∧ error = none ∧
          Reached hashOf start chain high floor p q after) ∨
        (error ≠ none ∧ after.db.headFast = some (hashOf (chain (floor + 1))) ∧
          ¬ (x = floor + 1 ∧ y = floor + 1))) := by
  have hfull : floor + 1 ≤ full := hfloor.trans hhigh
  have htop : floor + 1 ≤ top := hfull.trans hchain.full_le
  have hcanonical : getCanonicalHash cursor.db (floor + 1) = hashOf (chain (floor + 1)) := by
    unfold getCanonicalHash
    rw [hreached.canonical, hchain.canonical _ htop, Option.getD_some]
  unfold ChainRollback.rollbackBlock
  dsimp only
  rw [hcanonical, if_neg (hchain.nonzero _ htop)]
  rcases moveHeader_cases hchain hx hreached.currentHeader hreached.headers with
    ⟨hnone, hne⟩ | ⟨p, rfl, hheader⟩
  · rw [hnone]
    exact ⟨_, _, rfl, hreached.canonical,
      .inr ⟨Option.some_ne_none _, hreached.heads.headFast, fun h ↦ hne h.1⟩⟩
  rw [hheader]
  dsimp only
  rcases moveBlock_cases hchain hy hfull { cursor with
      db := { cursor.db with headHeader := some (hashOf (chain p)) }
      currentHeader := chain p } hreached.currentBlock hreached.headers hreached.bodies with
    ⟨hnone, hne⟩ | ⟨q, block, rfl, hq, hblock⟩
  · rw [hnone]
    exact ⟨_, _, rfl, hreached.canonical,
      .inr ⟨Option.some_ne_none _, hreached.heads.headFast, fun h ↦ hne h.2⟩⟩
  rw [hblock]
  dsimp only
  obtain ⟨fastBlock, hfast, hmoved⟩ := moveFastBlock_eq hchain hfull { cursor with
      db := { cursor.db with
        headHeader := some (hashOf (chain p))
        headBlock := some (hashOf (chain q)) }
      currentHeader := chain p
      currentBlock := block } hreached.currentFastBlock hreached.headers hreached.bodies
  rw [hmoved]
  refine ⟨_, _, rfl, hreached.canonical, .inl ⟨p, q, rfl, rfl, rfl, ?_⟩⟩
  exact {
    currentHeader := rfl
    currentBlock := hq
    currentFastBlock := hfast
    heads := ⟨rfl, rfl, rfl⟩
    canonical := hreached.canonical
    headers := hreached.headers.erase hfloor
    bodies := hreached.bodies.erase hfloor
    receipts := hreached.receipts.erase hfloor }

/-! ## The loop -/

/-- The loop comes down to the target, with the heads moved by as many blocks, or it stops with the
head fast block above the target. -/
theorem Reached.rollbackBlocks {count : ℕ} (hchain : CanonicalChain hashOf start chain top full)
    (hreached : Reached hashOf start chain high (target + count) x y cursor)
    (hcount : target + count ≤ high) (hhigh : high ≤ full) (hx : x ≤ top) (hy : y ≤ top) :
    ∃ after fatal, rollbackBlocks hashOf target count cursor = (after, fatal) ∧
      after.db.canonical = start.canonical ∧
      ((∃ p q, x = p + count ∧ y = q + count ∧ fatal = none ∧
          Reached hashOf start chain high target p q after) ∨
        (¬ (x = target + count ∧ y = target + count) ∧
          ∃ z, target < z ∧ z ≤ top ∧ after.db.headFast = some (hashOf (chain z)))) := by
  induction count generalizing cursor x y with
  | zero => exact ⟨cursor, none, rfl, hreached.canonical, .inl ⟨x, y, rfl, rfl, rfl, hreached⟩⟩
  | succ count ih =>
    rw [← Nat.add_assoc] at hreached hcount ⊢
    obtain ⟨mid, error, hblock, hcanonical, hcases⟩ :=
      hreached.rollbackBlock hchain hcount hhigh hx hy
    unfold ChainRollback.rollbackBlocks
    rw [hblock]
    rcases hcases with ⟨p, q, rfl, rfl, rfl, hmid⟩ | ⟨herror, hfast, hne⟩
    · obtain ⟨after, fatal, hloop, hsame, hcases⟩ :=
        ih hmid (Nat.le_of_succ_le hcount) (Nat.le_of_succ_le hx) (Nat.le_of_succ_le hy)
      refine ⟨after, fatal, hloop, hsame, ?_⟩
      rcases hcases with ⟨p, q, rfl, rfl, rfl, hdown⟩ | ⟨hne, hstopped⟩
      · exact .inl ⟨p, q, rfl, rfl, rfl, hdown⟩
      · exact .inr ⟨fun h ↦ hne ⟨Nat.succ.inj h.1, Nat.succ.inj h.2⟩, hstopped⟩
    · obtain ⟨error, rfl⟩ := Option.ne_none_iff_exists'.mp herror
      exact ⟨mid, _, rfl, hcanonical, .inr ⟨hne, target + count + 1, by omega,
        (hcount.trans hhigh).trans hchain.full_le, hfast⟩⟩

end Steps

/-! ## The command -/

section Command

variable {hashOf : Header → Hash} {db : ChainDB Body Receipts} {chain : ℕ → Header}
  {top full a b c target : ℕ}

theorem CanonicalChain.getBlock_eq (hchain : CanonicalChain hashOf db chain top full) {i : ℕ}
    (hi : i ≤ full) : ∃ body, getBlock db (hashOf (chain i)) i = some ⟨chain i, body⟩ := by
  obtain ⟨body, hbody⟩ := hchain.body i hi
  unfold getBlock
  rw [hchain.header i (hi.trans hchain.full_le), hbody]
  exact ⟨body, rfl⟩

theorem rollbackCmd_eq (hchain : CanonicalChain hashOf db chain top full)
    (hheads : Heads hashOf db chain a b c) (ha : a ≤ top) (hb : b ≤ full) (hc : c ≤ full)
    (htarget : 0 < target) (htb : target < b) :
    ∃ cursor, Reached hashOf db chain c c a b cursor ∧
      rollbackCmd hashOf db target = ((rollbackBlocks hashOf target (c - target) cursor).1.db,
        (rollbackBlocks hashOf target (c - target) cursor).2) := by
  have hnonzero := hchain.nonzero
  obtain ⟨body, hblock⟩ := hchain.getBlock_eq hb
  obtain ⟨fastBody, hfast⟩ := hchain.getBlock_eq hc
  have hreadHeader : readHeader db (chain b) b = (chain a, a) := by
    unfold readHeader getHeadHeaderHash getBlockNumber
    dsimp only
    rw [hheads.headHeader, Option.getD_some, if_neg (hnonzero a ha), hchain.numberOf a ha,
      Option.getD_some, hchain.header a ha, Option.getD_some]
  have hreadFast : readFastBlock db ⟨chain b, body⟩ a = (⟨chain c, fastBody⟩, c) := by
    have hctop := hc.trans hchain.full_le
    unfold readFastBlock getHeadFastBlockHash getBlockNumber
    dsimp only
    rw [hheads.headFast, Option.getD_some, if_neg (hnonzero c hctop), hchain.numberOf c hctop,
      Option.getD_some, hfast, Option.getD_some]
  refine ⟨⟨db, chain a, ⟨chain b, body⟩, ⟨chain c, fastBody⟩⟩,
    ⟨rfl, rfl, rfl, hheads, rfl, cleared_refl, cleared_refl, cleared_refl⟩, ?_⟩
  have hbtop := hb.trans hchain.full_le
  have hnumber : getBlockNumber db (hashOf (chain b)) = b := by
    unfold getBlockNumber
    rw [hchain.numberOf b hbtop, Option.getD_some]
  unfold rollbackCmd getHeadBlockHash
  dsimp only
  rw [if_neg htarget.ne', hheads.headBlock, Option.getD_some, if_neg (hnonzero b hbtop), hnumber,
    if_neg (not_le.mpr htb), hblock]
  dsimp only
  rw [hreadHeader]
  dsimp only
  rw [hreadFast]

/-- The hashes of the numbers above the target stay, so that the chain is never rolled back. The
heads end at the target exactly when they were at the same block; then exactly the data of the
canonical blocks from there down to the target is deleted. -/
theorem rollbackCmd_iff (hchain : CanonicalChain hashOf db chain top full)
    (hheads : Heads hashOf db chain a b c) (ha : a ≤ top) (hb : b ≤ full) (hc : c ≤ full)
    (htarget : 0 < target) (htb : target < b) (hta : target ≤ a) (htc : target ≤ c) :
    (rollbackCmd hashOf db target).1.canonical = db.canonical ∧
      ¬ RolledBack hashOf chain target (rollbackCmd hashOf db target).1 ∧
      (Heads hashOf (rollbackCmd hashOf db target).1 chain target target target ↔ a = b ∧ b = c) ∧
      (a = b → b = c → (rollbackCmd hashOf db target).2 = none ∧
        Cleared hashOf chain target c db.header (rollbackCmd hashOf db target).1.header ∧
        Cleared hashOf chain target c db.body (rollbackCmd hashOf db target).1.body ∧
        Cleared hashOf chain target c db.receipts (rollbackCmd hashOf db target).1.receipts) := by
  obtain ⟨cursor, hreached, hcmd⟩ := rollbackCmd_eq hchain hheads ha hb hc htarget htb
  obtain ⟨count, rfl⟩ := Nat.exists_eq_add_of_le htc
  rw [Nat.add_sub_cancel_left] at hcmd
  have hbtop := hb.trans hchain.full_le
  obtain ⟨after, fatal, hloop, hcanonical, hcases⟩ :=
    hreached.rollbackBlocks hchain le_rfl hc ha hbtop
  rw [hcmd, hloop]
  dsimp only
  refine ⟨hcanonical, ?_, ?_, ?_⟩
  · intro hrolled
    have hzero := hrolled.canonical b htb
    unfold getCanonicalHash at hzero
    rw [hcanonical, hchain.canonical b hbtop, Option.getD_some] at hzero
    exact hchain.nonzero b hbtop hzero
  · rcases hcases with ⟨p, q, rfl, rfl, rfl, hdown⟩ | ⟨hne, z, hz, hztop, hfast⟩
    · constructor
      · intro hat
        have hp := hdown.heads.headHeader.symm.trans hat.headHeader
        have hq := hdown.heads.headBlock.symm.trans hat.headBlock
        have hptarget : p = target := hchain.hash_inj (by omega) (by omega) (Option.some.inj hp)
        have hqtarget : q = target := hchain.hash_inj (by omega) (by omega) (Option.some.inj hq)
        omega
      · rintro ⟨hpq, hqc⟩
        have hp : p = target := by omega
        have hq : q = target := by omega
        subst hp hq
        exact hdown.heads
    · constructor
      · intro hat
        have hsame := Option.some.inj (hfast.symm.trans hat.headFast)
        have hztarget : z = target := hchain.hash_inj hztop (by omega) hsame
        omega
      · rintro ⟨hab, hbc⟩
        exact absurd ⟨hab.trans hbc, hbc⟩ hne
  · intro hab hbc
    rcases hcases with ⟨p, q, -, -, hfatal, hdown⟩ | ⟨hne, -⟩
    · exact ⟨hfatal, hdown.headers, hdown.bodies, hdown.receipts⟩
    · exact absurd ⟨hab.trans hbc, hbc⟩ hne

end Command

/-! ## A chain of three blocks -/

/-- A hash that is one more than the number. -/
def sampleHash (header : Header) : Hash := BitVec.ofNat 256 (header.number + 1)

def sampleHeader (number : ℕ) : Header := ⟨BitVec.ofNat 256 number, number, []⟩

/-- The number of a hash. -/
def sampleNumber (hash : Hash) : Option ℕ :=
  if hash = 1 then some 0 else if hash = 2 then some 1 else if hash = 3 then some 2 else none

/-- A database with the blocks 0, 1 and 2 and with heads. -/
def sampleDB (header block fast : ℕ) : ChainDB Unit Unit where
  canonical i := if i ≤ 2 then some (sampleHash (sampleHeader i)) else none
  number := sampleNumber
  header i hash :=
    if i ≤ 2 ∧ hash = sampleHash (sampleHeader i) then some (sampleHeader i) else none
  body i hash := if i ≤ 2 ∧ hash = sampleHash (sampleHeader i) then some () else none
  receipts i hash := if i ≤ 2 ∧ hash = sampleHash (sampleHeader i) then some () else none
  td _ _ := none
  headHeader := some (sampleHash (sampleHeader header))
  headBlock := some (sampleHash (sampleHeader block))
  headFast := some (sampleHash (sampleHeader fast))

theorem canonicalChain_sampleDB (header block fast : ℕ) :
    CanonicalChain sampleHash (sampleDB header block fast) sampleHeader 2 2 where
  number _ _ := rfl
  parent _ _ := rfl
  nonzero := by decide
  canonical i hi := if_pos hi
  numberOf := (by decide : ∀ i ≤ 2, sampleNumber (sampleHash (sampleHeader i)) = some i)
  header i hi := if_pos ⟨hi, rfl⟩
  body i hi := ⟨(), if_pos ⟨hi, rfl⟩⟩
  full_le := le_rfl
  top_lt := by decide
  missing hash := by
    have hlarge : ¬ missingNumber ≤ 2 := by decide
    simp [sampleDB, hlarge]

/-- With all heads at block 2, the heads end at block 1. -/
theorem rollbackCmd_iff_sample :
    Heads sampleHash (rollbackCmd sampleHash (sampleDB 2 2 2) 1).1 sampleHeader 1 1 1 ∧
      (rollbackCmd sampleHash (sampleDB 2 2 2) 1).2 = none := by
  obtain ⟨-, -, hheads, hdata⟩ := rollbackCmd_iff (canonicalChain_sampleDB 2 2 2)
    ⟨rfl, rfl, rfl⟩ le_rfl le_rfl le_rfl Nat.one_pos (Nat.lt_succ_self 1) (Nat.le_succ 1)
    (Nat.le_succ 1)
  exact ⟨hheads.mpr ⟨rfl, rfl⟩, (hdata rfl rfl).1⟩

/-- The hash of block 2 can still be read after the rollback to block 1, without a header. When the
head fast block is at block 1, nothing is rolled back. -/
theorem canonicalHash_of_rolledBack :
    let after := (rollbackCmd sampleHash (sampleDB 2 2 2) 1).1
    getCanonicalHash after 2 = 3 ∧ after.header 2 3 = none ∧
      getHeadBlockHash (rollbackCmd sampleHash (sampleDB 2 2 1) 1).1 = 3 := by
  decide

end LkChain.Ethermint.ChainRollback
