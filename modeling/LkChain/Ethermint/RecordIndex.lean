import LkChain.Ethermint.InternalTxs
import LkChain.Foundation.Hex
import LkChain.Foundation.KeyValue
import LkChain.Foundation.Schedules
import LkChain.Foundation.Texts

/-!
# The index of internal transactions

`txmgr/db/basic`: records of internal transactions are put into batches, and a commit writes the
batch into a key-value store. Every record has two keys, one with its hash and one with the number
of the block and a running index, which all batches share. The records of a block are the keys that
begin with its number.

A batch is not tied to a block: a record is listed under the number at the time when it was put,
also when a later block has begun before the commit.
-/

namespace LkChain.Ethermint.RecordIndex

open Foundation Foundation.KeyValue Foundation.Texts
open Ethereum.State (Hash Bytes)
open InternalTxs

/-! ## Keys -/

/-- The keys of the store. Before the first block there is no number. -/
inductive Key where
  | byHash (type : RecordType) (hash : Bytes)
  | byIndex (type : RecordType) (blockNum : Option ℤ) (index : ℕ)
deriving DecidableEq

/-- The text of a hash. -/
def hashText (hash : Bytes) : List Char := '0' :: 'x' :: Hex.encodeChars hash

/-- The text of the number of the block. -/
def numberText : Option ℤ → List Char
  | none => []
  | some n => integer n

def Key.text : Key → List Char
  | .byHash type hash => type.text.toList ++ '-' :: hashText hash
  | .byIndex type blockNum index =>
    type.text.toList ++ '-' :: (numberText blockNum ++ '-' :: decimal index)

/-! ## The store -/

section Program

variable (jsonHash : Payload → ℕ → Bytes)

/-- A record as `putLKTx` writes it. -/
def stamped (gBlockNum : Option ℤ) (gTxIndex : ℕ) (lkx : LKTransaction) : LKTransaction :=
  { lkx with
    blockNum := gBlockNum
    index := if lkx.index = 0 then gTxIndex else lkx.index }

/-- `putLKTx` of an internal transaction, before it moves the index. -/
def putLKTx (gBlockNum : Option ℤ) (gTxIndex : ℕ) (items : Store LKTransaction)
    (lkx : LKTransaction) : Store LKTransaction :=
  let value := stamped gBlockNum gTxIndex lkx
  (items.insert (Key.byHash lkx.payload.type (value.hash jsonHash)).text value).insert
    (Key.byIndex lkx.payload.type gBlockNum gTxIndex).text value

/-- `GetLKTransaction`, which collects in a map as well. -/
def getLKTransaction (db : Store LKTransaction) (txType : String) (txHash : List Char) :
    Except String (List LKTransaction) :=
  let read (type : String) : List LKTransaction := db[type.toList ++ '-' :: txHash]?.toList
  if txType = RecordType.text .contractTx ∨ txType = RecordType.text .suicideTx then
    .ok (read txType)
  else if txType = "*" then
    .ok (read (RecordType.text .contractTx) ++ read (RecordType.text .suicideTx))
  else .error ("invalid lkx type: " ++ txType)

/-- `GetLKTransactionsByBlock`. The code collects the records in a map, so that their order is open;
here it is that of the keys. -/
def getLKTransactionsByBlock (db : Store LKTransaction) (txType : String) (num : ℤ) :
    Except String (List LKTransaction) :=
  if txType = RecordType.text .contractTx ∨ txType = RecordType.text .suicideTx then
    let keyPrefix := txType.toList ++ '-' :: (integer num ++ ['-'])
    .ok ((iterate db keyPrefix).map Prod.snd)
  else .error ("invalid lkx type: " ++ txType)

/-- A record that was put, with the number of the block and the batch at that time. It is pending
until the batch is cancelled, and committed when the batch was committed while it was pending. -/
structure Entry where
  record : LKTransaction
  number : Option ℤ
  batch : ℕ
  pending : Bool
  committed : Bool

/-- The variables of the package, the batches that were begun, and a journal of all that was put. -/
structure System where
  gBlockNum : Option ℤ
  gTxIndex : ℕ
  db : Store LKTransaction
  batches : List (Store LKTransaction)
  journal : List Entry

def System.init : System := ⟨none, 1, ∅, [], []⟩

/-- The calls. What is put is fresh: its index is zero. -/
inductive Call where
  | updateBlockNum (num : ℤ)
  | beginBatch
  | put (batch : ℕ) (payload : Payload) (sign : String)
  | cancel (batch : ℕ)
  | commit (batch : ℕ)

/-- A batch is cancelled: what is pending in it is not any more. -/
def Entry.cancel (batch : ℕ) (entry : Entry) : Entry :=
  { entry with pending := entry.pending && decide (entry.batch ≠ batch) }

/-- The entry is in the items of a batch. -/
def Entry.isIn (batch : ℕ) (entry : Entry) : Bool := entry.pending && decide (entry.batch = batch)

/-- A batch is committed, and with it what is in it. -/
def Entry.commit (batch : ℕ) (entry : Entry) : Entry :=
  { entry with committed := entry.committed || entry.isIn batch }

def step (s : System) : Call → System
  | .updateBlockNum num => { s with gBlockNum := some num, gTxIndex := 1 }
  | .beginBatch => { s with batches := s.batches ++ [∅] }
  | .put batch payload sign =>
    match s.batches[batch]? with
    | none => s
    | some items =>
      let lkx : LKTransaction := ⟨payload, sign, 0, none⟩
      { s with
        batches := s.batches.set batch (putLKTx jsonHash s.gBlockNum s.gTxIndex items lkx)
        gTxIndex := s.gTxIndex + 1
        journal := s.journal ++
          [⟨stamped s.gBlockNum s.gTxIndex lkx, s.gBlockNum, batch, true, false⟩] }
  | .cancel batch =>
    match s.batches[batch]? with
    | none => s
    | some _ => { s with
        batches := s.batches.set batch ∅
        journal := s.journal.map (Entry.cancel batch) }
  | .commit batch =>
    match s.batches[batch]? with
    | none => s
    | some items => { s with
        db := s.db ∪ items
        journal := s.journal.map (Entry.commit batch) }

end Program

/-- The numbers of the blocks increase. -/
def Increasing (s : System) : Call → Prop
  | .updateBlockNum num => ∀ n ∈ s.gBlockNum, n < num
  | _ => True

/-! ## Texts of keys -/

section Keys

variable {type type' : RecordType}

theorem typeText_append_inj {back back' : List Char} :
    type.text.toList ++ back = type'.text.toList ++ back' ↔ type = type' ∧ back = back' := by
  cases type <;> cases type' <;> simp [RecordType.text]

theorem dash_notMem_hashText (hash : Bytes) : '-' ∉ hashText hash := by
  intro hmem
  rcases List.mem_cons.mp hmem with h | hmem
  · cases h
  · rcases List.mem_cons.mp hmem with h | hmem
    · cases h
    · exact Hex.value_of_mem_encodeChars hmem (by decide)

theorem numberText_append_inj {num num' : Option ℤ} {index index' : ℕ} :
    numberText num ++ '-' :: decimal index = numberText num' ++ '-' :: decimal index' ↔
      num = num' ∧ index = index' := by
  cases num with
  | none =>
    cases num' with
    | none => simp [numberText, decimal_injective.eq_iff]
    | some n =>
      refine ⟨fun heq ↦ absurd heq.symm (integer_append_ne n index _), fun h ↦ (by cases h.1)⟩
  | some n =>
    cases num' with
    | none => exact ⟨fun heq ↦ absurd heq (integer_append_ne n index' _), fun h ↦ (by cases h.1)⟩
    | some m =>
      rw [numberText, numberText, integer_append_inj, decimal_injective.eq_iff, Option.some_inj]

theorem text_injective : Function.Injective Key.text := by
  have hother : ∀ type type' hash num index,
      Key.text (.byHash type hash) ≠ Key.text (.byIndex type' num index) := by
    intro type type' hash num index heq
    apply dash_notMem_hashText hash
    rw [Key.text, Key.text, typeText_append_inj, List.cons.injEq] at heq
    rw [heq.2.2]
    exact List.mem_append_right _ List.mem_cons_self
  intro key key' heq
  cases key with
  | byHash type hash =>
    cases key' with
    | byHash type' hash' =>
      rw [Key.text, Key.text, typeText_append_inj, List.cons.injEq, hashText, hashText,
        List.cons.injEq, List.cons.injEq, Hex.encodeChars_injective.eq_iff] at heq
      rw [heq.1, heq.2.2.2.2]
    | byIndex type' num index => exact absurd heq (hother _ _ _ _ _)
  | byIndex type num index =>
    cases key' with
    | byHash type' hash' => exact absurd heq.symm (hother _ _ _ _ _)
    | byIndex type' num' index' =>
      rw [Key.text, Key.text, typeText_append_inj, List.cons.injEq, numberText_append_inj] at heq
      rw [heq.1, heq.2.2.1, heq.2.2.2]

/-- The keys of a block are those with its number: none of another block, and none with a hash. -/
theorem keyPrefix_iff {num : ℤ} {key : Key} :
    type.text.toList ++ '-' :: (integer num ++ ['-']) <+: key.text ↔
      ∃ index, key = .byIndex type (some num) index := by
  constructor
  · rintro ⟨rest, hrest⟩
    rw [List.append_assoc, List.cons_append, List.append_assoc, List.singleton_append] at hrest
    cases key with
    | byHash type' hash =>
      rw [Key.text, typeText_append_inj, List.cons.injEq] at hrest
      have hmem : '-' ∈ hashText hash := hrest.2.2 ▸ List.mem_append_right _ List.mem_cons_self
      exact absurd hmem (dash_notMem_hashText hash)
    | byIndex type' num' index =>
      rw [Key.text, typeText_append_inj, List.cons.injEq] at hrest
      obtain ⟨rfl, -, hnum⟩ := hrest
      cases num' with
      | none => exact absurd hnum (integer_append_ne num index rest)
      | some m =>
        rw [numberText, integer_append_inj] at hnum
        exact ⟨index, by rw [hnum.1]⟩
  · rintro ⟨index, rfl⟩
    refine ⟨decimal index, ?_⟩
    rw [Key.text, numberText, List.append_assoc, List.cons_append, List.append_assoc,
      List.singleton_append]

end Keys

/-! ## What is filed under a key -/

variable {jsonHash : Payload → ℕ → Bytes}

/-- A record has two keys. -/
def Under (jsonHash : Payload → ℕ → Bytes) (record : LKTransaction) (key : Key) : Prop :=
  key = .byHash record.payload.type (record.hash jsonHash) ∨
    key = .byIndex record.payload.type record.blockNum record.index

instance (record : LKTransaction) (key : Key) : Decidable (Under jsonHash record key) :=
  inferInstanceAs (Decidable (_ ∨ _))

/-- The record of the first entry under a key, among some entries. -/
def filed (jsonHash : Payload → ℕ → Bytes) (wanted : Entry → Bool) (journal : List Entry)
    (key : Key) :
    Option LKTransaction :=
  (journal.find? fun entry ↦ wanted entry && decide (Under jsonHash entry.record key)).map
    Entry.record

/-- Two records with a key in common are the same. -/
def Distinct (jsonHash : Payload → ℕ → Bytes) (journal : List Entry) : Prop :=
  ∀ entry ∈ journal, ∀ other ∈ journal, ∀ key, Under jsonHash entry.record key →
    Under jsonHash other.record key → entry.record = other.record

section Filing

variable {wanted wanted' : Entry → Bool} {journal : List Entry} {key : Key} {record : LKTransaction}

theorem filed_eq_some_iff (hdistinct : Distinct jsonHash journal) :
    filed jsonHash wanted journal key = some record ↔
      ∃ entry ∈ journal, wanted entry = true ∧ Under jsonHash entry.record key ∧
        entry.record = record := by
  unfold filed
  rw [Option.map_eq_some_iff]
  constructor
  · rintro ⟨entry, hfind, hrecord⟩
    obtain ⟨hmem, hwanted⟩ := And.intro (List.mem_of_find?_eq_some hfind) (List.find?_some hfind)
    rw [Bool.and_eq_true, decide_eq_true_eq] at hwanted
    exact ⟨entry, hmem, hwanted.1, hwanted.2, hrecord⟩
  · rintro ⟨entry, hmem, hwanted, hunder, rfl⟩
    cases hfind : journal.find? fun entry ↦
        wanted entry && decide (Under jsonHash entry.record key) with
    | none =>
      have hnone := List.find?_eq_none.mp hfind entry hmem
      rw [Bool.and_eq_true, decide_eq_true_eq] at hnone
      exact absurd ⟨hwanted, hunder⟩ hnone
    | some found =>
      have hfound := List.find?_some hfind
      rw [Bool.and_eq_true, decide_eq_true_eq] at hfound
      exact ⟨found, rfl, hdistinct found (List.mem_of_find?_eq_some hfind) entry hmem key hfound.2
        hunder⟩

theorem filed_congr (hsame : ∀ entry ∈ journal, wanted entry = wanted' entry) :
    filed jsonHash wanted journal = filed jsonHash wanted' journal := by
  funext key
  unfold filed
  congr 1
  induction journal with
  | nil => rfl
  | cons entry journal ih =>
    obtain ⟨hentry, hsame⟩ := List.forall_mem_cons.mp hsame
    rw [List.find?_cons, List.find?_cons, hentry, ih hsame]

theorem filed_map (change : Entry → Entry)
    (hrecord : ∀ entry, (change entry).record = entry.record) :
    filed jsonHash wanted (journal.map change) =
      filed jsonHash (fun entry ↦ wanted (change entry)) journal := by
  funext key
  unfold filed
  rw [List.find?_map, Option.map_map]
  simp only [Function.comp_def, hrecord]

theorem filed_append_of_not {entry : Entry} (hwanted : wanted entry = false) :
    filed jsonHash wanted (journal ++ [entry]) = filed jsonHash wanted journal := by
  funext key
  unfold filed
  rw [List.find?_append, List.find?_singleton, hwanted, Bool.false_and, if_neg Bool.false_ne_true,
    Option.or_none]

/-- Entries of two kinds: those of the first kind come first, which makes no difference. -/
theorem filed_or (hdistinct : Distinct jsonHash journal) :
    filed jsonHash (fun entry ↦ wanted entry || wanted' entry) journal key =
      (filed jsonHash wanted' journal key).or (filed jsonHash wanted journal key) := by
  apply Option.ext
  intro record
  rw [Option.or_eq_some_iff]
  simp only [filed_eq_some_iff hdistinct, Bool.or_eq_true]
  constructor
  · rintro ⟨entry, hmem, hwanted | hwanted', hunder, hrecord⟩
    · cases hfirst : filed jsonHash wanted' journal key with
      | none => exact .inr ⟨rfl, entry, hmem, hwanted, hunder, hrecord⟩
      | some found =>
        obtain ⟨other, hother, hkind, hunder', -⟩ := (filed_eq_some_iff hdistinct).mp hfirst
        have hsame := hdistinct other hother entry hmem key hunder' hunder
        exact .inl ⟨other, hother, hkind, hunder', hsame.trans hrecord⟩
    · exact .inl ⟨entry, hmem, hwanted', hunder, hrecord⟩
  · rintro (⟨entry, hmem, hwanted', hrest⟩ | ⟨-, entry, hmem, hwanted, hrest⟩)
    · exact ⟨entry, hmem, .inr hwanted', hrest⟩
    · exact ⟨entry, hmem, .inl hwanted, hrest⟩

theorem filed_false : filed jsonHash (fun _ ↦ false) journal = fun _ ↦ none := by
  funext key
  unfold filed
  rw [List.find?_eq_none.mpr (by simp), Option.map_none]

end Filing

/-! ## Numbers and indices -/

/-- The records are stamped with the number of the block, and with an index that is new in the
block. -/
structure Numbered (s : System) : Prop where
  stamped : ∀ entry ∈ s.journal, entry.record.blockNum = entry.number
  index_lt : ∀ entry ∈ s.journal, entry.number = s.gBlockNum → entry.record.index < s.gTxIndex
  number_le : ∀ entry ∈ s.journal, ∀ m ∈ entry.number, ∃ n ∈ s.gBlockNum, m ≤ n
  unique : ∀ entry ∈ s.journal, ∀ other ∈ s.journal, entry.number = other.number →
    entry.record.index = other.record.index → entry.record = other.record
  pos : 0 < s.gTxIndex

theorem numbered_init : Numbered .init := by
  constructor <;> simp [System.init]

section Steps

variable {s : System} {call : Call}

/-- A change of the journal that concerns neither records nor numbers. -/
theorem Numbered.map (hnumbered : Numbered s) {db : Store LKTransaction}
    {batches : List (Store LKTransaction)} {change : Entry → Entry}
    (hrecord : ∀ entry, (change entry).record = entry.record)
    (hnumber : ∀ entry, (change entry).number = entry.number) :
    Numbered { s with db := db, batches := batches, journal := s.journal.map change } := by
  refine ⟨?_, ?_, ?_, ?_, hnumbered.pos⟩ <;>
    simp only [List.forall_mem_map, hrecord, hnumber]
  · exact hnumbered.stamped
  · exact hnumbered.index_lt
  · exact hnumbered.number_le
  · exact hnumbered.unique

theorem Numbered.step (jsonHash : Payload → ℕ → Bytes) (hnumbered : Numbered s)
    (hincreasing : Increasing s call) :
    Numbered (step jsonHash s call) := by
  cases call with
  | updateBlockNum num =>
    have hold : ∀ entry ∈ s.journal, entry.number ≠ some num := by
      intro entry hmem hnum
      obtain ⟨n, hn, hle⟩ := hnumbered.number_le entry hmem num hnum
      exact absurd (hincreasing n hn) (not_lt.mpr hle)
    refine ⟨hnumbered.stamped, ?_, ?_, hnumbered.unique, Nat.one_pos⟩
    · exact fun entry hmem hnum ↦ absurd hnum (hold entry hmem)
    · intro entry hmem m hm
      obtain ⟨n, hn, hle⟩ := hnumbered.number_le entry hmem m hm
      exact ⟨num, rfl, hle.trans (hincreasing n hn).le⟩
  | beginBatch => exact ⟨hnumbered.stamped, hnumbered.index_lt, hnumbered.number_le,
      hnumbered.unique, hnumbered.pos⟩
  | put batch payload sign =>
    unfold RecordIndex.step
    dsimp only
    split
    next => exact hnumbered
    next items hitems =>
      have hnew : ∀ entry ∈ s.journal, entry.number = s.gBlockNum →
          entry.record.index ≠ s.gTxIndex :=
        fun entry hmem hnum ↦ (hnumbered.index_lt entry hmem hnum).ne
      constructor
      case stamped =>
        simp only [List.forall_mem_append, List.forall_mem_singleton]
        exact ⟨hnumbered.stamped, rfl⟩
      case index_lt =>
        simp only [List.forall_mem_append, List.forall_mem_singleton]
        exact ⟨fun entry hmem hnum ↦
          (hnumbered.index_lt entry hmem hnum).trans (Nat.lt_succ_self _),
          fun _ ↦ Nat.lt_succ_self _⟩
      case number_le =>
        simp only [List.forall_mem_append, List.forall_mem_singleton]
        exact ⟨hnumbered.number_le, fun m hm ↦ ⟨m, hm, le_rfl⟩⟩
      case unique =>
        simp only [List.forall_mem_append, List.forall_mem_singleton]
        refine ⟨fun entry hmem ↦ ⟨hnumbered.unique entry hmem, ?_⟩, ?_, fun _ _ ↦ trivial⟩
        · exact fun hnum hindex ↦ absurd hindex (hnew entry hmem hnum)
        · exact fun other hmem hnum hindex ↦ absurd hindex.symm (hnew other hmem hnum.symm)
      case pos => exact Nat.succ_pos _
  | cancel batch =>
    unfold RecordIndex.step
    dsimp only
    split
    next => exact hnumbered
    next => exact hnumbered.map (fun _ ↦ rfl) fun _ ↦ rfl
  | commit batch =>
    unfold RecordIndex.step
    dsimp only
    split
    next => exact hnumbered
    next => exact hnumbered.map (fun _ ↦ rfl) fun _ ↦ rfl

/-! ## Hashes -/

/-- Hashes do not collide, and the transactions of different blocks have different hashes. -/
structure Distinguished (jsonHash : Payload → ℕ → Bytes) (journal : List Entry) : Prop where
  collisionFree : ∀ entry ∈ journal, ∀ other ∈ journal,
    entry.record.hash jsonHash = other.record.hash jsonHash →
      entry.record.payload = other.record.payload ∧ entry.record.index = other.record.index
  txHash : ∀ entry ∈ journal, ∀ other ∈ journal,
    entry.record.payload.txHash = other.record.payload.txHash → entry.number = other.number

theorem Distinguished.distinct (hdistinguished : Distinguished jsonHash s.journal)
    (hnumbered : Numbered s) : Distinct jsonHash s.journal := by
  intro entry hentry other hother key hunder hunder'
  rcases hunder with rfl | rfl
  · rcases hunder' with hkey | hkey
    · obtain ⟨-, hhash⟩ := Key.byHash.inj hkey
      obtain ⟨hpayload, hindex⟩ := hdistinguished.collisionFree entry hentry other hother hhash
      have hnumber := hdistinguished.txHash entry hentry other hother (by rw [hpayload])
      exact hnumbered.unique entry hentry other hother hnumber hindex
    · cases hkey
  · rcases hunder' with hkey | hkey
    · cases hkey
    · obtain ⟨-, hnum, hindex⟩ := Key.byIndex.inj hkey
      rw [hnumbered.stamped entry hentry, hnumbered.stamped other hother] at hnum
      exact hnumbered.unique entry hentry other hother hnum hindex

theorem exists_of_step (jsonHash : Payload → ℕ → Bytes) {entry : Entry} (hmem : entry ∈ s.journal)
    (call : Call) :
    ∃ kept ∈ (step jsonHash s call).journal, kept.record = entry.record ∧
      kept.number = entry.number := by
  cases call with
  | updateBlockNum num => exact ⟨entry, hmem, rfl, rfl⟩
  | beginBatch => exact ⟨entry, hmem, rfl, rfl⟩
  | put batch payload sign =>
    unfold RecordIndex.step
    dsimp only
    split
    next => exact ⟨entry, hmem, rfl, rfl⟩
    next => exact ⟨entry, List.mem_append_left _ hmem, rfl, rfl⟩
  | cancel batch =>
    unfold RecordIndex.step
    dsimp only
    split
    next => exact ⟨entry, hmem, rfl, rfl⟩
    next => exact ⟨_, List.mem_map_of_mem hmem, rfl, rfl⟩
  | commit batch =>
    unfold RecordIndex.step
    dsimp only
    split
    next => exact ⟨entry, hmem, rfl, rfl⟩
    next => exact ⟨_, List.mem_map_of_mem hmem, rfl, rfl⟩

theorem exists_of_run (jsonHash : Payload → ℕ → Bytes) {entry : Entry} (hmem : entry ∈ s.journal)
    (calls : List Call) :
    ∃ kept ∈ (calls.foldl (step jsonHash) s).journal, kept.record = entry.record ∧
      kept.number = entry.number := by
  induction calls generalizing s entry with
  | nil => exact ⟨entry, hmem, rfl, rfl⟩
  | cons call calls ih =>
    obtain ⟨mid, hmid, hrecord, hnumber⟩ := exists_of_step jsonHash hmem call
    obtain ⟨kept, hkept, hrecord', hnumber'⟩ := ih hmid
    exact ⟨kept, hkept, hrecord'.trans hrecord, hnumber'.trans hnumber⟩

/-- What holds of all records of a run holds of those from before. -/
theorem Distinguished.of_run (calls : List Call)
    (hfinal : Distinguished jsonHash (calls.foldl (RecordIndex.step jsonHash) s).journal) :
    Distinguished jsonHash s.journal := by
  constructor
  · intro entry hentry other hother hhash
    obtain ⟨kept, hkept, hrecord, -⟩ := exists_of_run jsonHash hentry calls
    obtain ⟨kept', hkept', hrecord', -⟩ := exists_of_run jsonHash hother calls
    rw [← hrecord, ← hrecord'] at hhash ⊢
    exact hfinal.collisionFree kept hkept kept' hkept' hhash
  · intro entry hentry other hother htx
    obtain ⟨kept, hkept, hrecord, hnumber⟩ := exists_of_run jsonHash hentry calls
    obtain ⟨kept', hkept', hrecord', hnumber'⟩ := exists_of_run jsonHash hother calls
    rw [← hrecord, ← hrecord'] at htx
    rw [← hnumber, ← hnumber']
    exact hfinal.txHash kept hkept kept' hkept' htx

/-! ## What the store and the batches hold -/

/-- The store holds the committed records, and every batch its own. -/
structure Filed (jsonHash : Payload → ℕ → Bytes) (s : System) : Prop where
  db : Represents Key.text s.db (filed jsonHash Entry.committed s.journal)
  items : ∀ batch items, s.batches[batch]? = some items →
    Represents Key.text items (filed jsonHash (Entry.isIn batch) s.journal)
  begun : ∀ entry ∈ s.journal, entry.batch < s.batches.length

theorem filed_init : Filed jsonHash .init where
  db := represents_empty Key.text
  items batch items hitems := by cases hitems
  begun entry hmem := by cases hmem

theorem Filed.beginBatch (hfiled : Filed jsonHash s) : Filed jsonHash
    (step jsonHash s .beginBatch) := by
  refine ⟨hfiled.db, fun batch items hitems ↦ ?_, fun entry hmem ↦ ?_⟩
  · change (s.batches ++ [∅])[batch]? = some items at hitems
    rw [List.getElem?_append] at hitems
    split at hitems
    next => exact hfiled.items batch items hitems
    next hnew =>
      rw [List.getElem?_singleton] at hitems
      split at hitems <;> cases hitems
      have hnone : filed jsonHash (Entry.isIn batch) s.journal = fun _ ↦ none := by
        rw [← filed_false]
        apply filed_congr
        intro entry hmem
        have hlt := hfiled.begun entry hmem
        have hne : entry.batch ≠ batch := by omega
        unfold Entry.isIn
        rw [decide_eq_false hne, Bool.and_false]
      change Represents Key.text ∅ (filed jsonHash (Entry.isIn batch) s.journal)
      rw [hnone]
      exact represents_empty Key.text
  · change entry.batch < (s.batches ++ [∅]).length
    rw [List.length_append]
    exact (hfiled.begun entry hmem).trans (Nat.lt_succ_self _)

theorem represents_putLKTx {journal : List Entry} {items : Store LKTransaction}
    {wanted : Entry → Bool}
    {entry : Entry} {lkx : LKTransaction} {gBlockNum : Option ℤ} {gTxIndex : ℕ}
    (hitems : Represents Key.text items (filed jsonHash wanted journal)) (hfresh : lkx.index = 0)
    (hrecord : entry.record = stamped gBlockNum gTxIndex lkx) (hwanted : wanted entry = true)
    (hdistinct : Distinct jsonHash (journal ++ [entry])) :
    Represents Key.text (putLKTx jsonHash gBlockNum gTxIndex items lkx)
      (filed jsonHash wanted (journal ++ [entry])) := by
  have hbefore : Distinct jsonHash journal := fun a ha b hb ↦
    hdistinct a (List.mem_append_left _ ha) b (List.mem_append_left _ hb)
  have hself : entry ∈ journal ++ [entry] := List.mem_append_right _ List.mem_cons_self
  have hunder : ∀ key, Under jsonHash entry.record key ↔
      key = .byHash lkx.payload.type ((stamped gBlockNum gTxIndex lkx).hash jsonHash) ∨
        key = .byIndex lkx.payload.type gBlockNum gTxIndex := by
    intro key
    rw [hrecord]
    unfold Under stamped
    rw [if_pos hfresh]
  have hinserted := (hitems.insert text_injective
    (.byHash lkx.payload.type ((stamped gBlockNum gTxIndex lkx).hash jsonHash))
    (stamped gBlockNum gTxIndex lkx)).insert text_injective
      (.byIndex lkx.payload.type gBlockNum gTxIndex) (stamped gBlockNum gTxIndex lkx)
  have hsame : filed jsonHash wanted (journal ++ [entry]) =
      Function.update (Function.update (filed jsonHash wanted journal)
        (.byHash lkx.payload.type ((stamped gBlockNum gTxIndex lkx).hash jsonHash))
        (some (stamped gBlockNum gTxIndex lkx)))
        (.byIndex lkx.payload.type gBlockNum gTxIndex) (some (stamped gBlockNum gTxIndex lkx)) := by
    funext key
    by_cases hkey : Under jsonHash entry.record key
    · -- the key is one of the two of the new record
      have hnew : filed jsonHash wanted (journal ++ [entry]) key = some entry.record :=
        (filed_eq_some_iff hdistinct).mpr ⟨entry, hself, hwanted, hkey, rfl⟩
      rw [hnew, hrecord, Function.update_apply, Function.update_apply]
      rcases (hunder key).mp hkey with h | h
      · rw [if_pos h, ite_self]
      · rw [if_pos h]
    · have hne := fun h ↦ hkey ((hunder key).mpr h)
      rw [Function.update_of_ne (fun h ↦ hne (.inr h)), Function.update_of_ne fun h ↦ hne (.inl h)]
      apply Option.ext
      intro record
      rw [filed_eq_some_iff hdistinct, filed_eq_some_iff hbefore]
      simp only [List.mem_append, List.mem_singleton, or_and_right, exists_or, exists_eq_left]
      exact or_iff_left fun h ↦ hkey h.2.1
  rw [hsame]
  exact hinserted

theorem Filed.put (hfiled : Filed jsonHash s) {batch : ℕ} {payload : Payload} {sign : String}
    (hdistinct : Distinct jsonHash (step jsonHash s (.put batch payload sign)).journal) :
    Filed jsonHash (step jsonHash s (.put batch payload sign)) := by
  unfold RecordIndex.step at hdistinct ⊢
  dsimp only at hdistinct ⊢
  split at hdistinct
  next => exact hfiled
  next items hitems =>
    constructor
    case db =>
      dsimp only
      rw [filed_append_of_not rfl]
      exact hfiled.db
    case items =>
      intro other found hfound
      dsimp only at hfound ⊢
      by_cases hother : batch = other
      · subst hother
        rw [List.getElem?_set_self (List.getElem?_eq_some_iff.mp hitems).1,
          Option.some_inj] at hfound
        rw [← hfound]
        refine represents_putLKTx (hfiled.items batch items hitems) rfl rfl ?_ hdistinct
        simp [Entry.isIn]
      · rw [List.getElem?_set_ne hother] at hfound
        rw [filed_append_of_not (by simp [Entry.isIn, hother])]
        exact hfiled.items other found hfound
    case begun =>
      simp only [List.forall_mem_append, List.forall_mem_singleton, List.length_set]
      exact ⟨hfiled.begun, (List.getElem?_eq_some_iff.mp hitems).1⟩

theorem Filed.cancel (hfiled : Filed jsonHash s) {batch : ℕ} :
    Filed jsonHash (step jsonHash s (.cancel batch)) := by
  unfold RecordIndex.step
  dsimp only
  split
  next => exact hfiled
  next items hitems =>
    constructor
    case db =>
      dsimp only
      rw [filed_map (Entry.cancel batch) fun _ ↦ rfl]
      exact hfiled.db
    case items =>
      intro other found hfound
      dsimp only at hfound ⊢
      rw [filed_map (Entry.cancel batch) fun _ ↦ rfl]
      by_cases hother : batch = other
      · subst hother
        rw [List.getElem?_set_self (List.getElem?_eq_some_iff.mp hitems).1,
          Option.some_inj] at hfound
        have hnone : ∀ entry : Entry, (entry.cancel batch).isIn batch = false := by
          intro entry
          simp [Entry.cancel, Entry.isIn]
        simp only [hnone, filed_false, ← hfound]
        exact represents_empty Key.text
      · rw [List.getElem?_set_ne hother] at hfound
        have hsame : ∀ entry : Entry, (entry.cancel batch).isIn other = entry.isIn other := by
          intro entry
          by_cases hbatch : entry.batch = other
          · have hne : entry.batch ≠ batch := fun h ↦ hother (h.symm.trans hbatch)
            simp [Entry.cancel, Entry.isIn, hne]
          · simp [Entry.cancel, Entry.isIn, hbatch]
        simp only [hsame]
        exact hfiled.items other found hfound
    case begun =>
      simp only [List.forall_mem_map, List.length_set]
      exact hfiled.begun

theorem Filed.commit (hfiled : Filed jsonHash s) {batch : ℕ}
    (hdistinct : Distinct jsonHash s.journal) :
    Filed jsonHash (step jsonHash s (.commit batch)) := by
  unfold RecordIndex.step
  dsimp only
  split
  next => exact hfiled
  next items hitems =>
    constructor
    case db =>
      have hunion := hfiled.db.union (hfiled.items batch items hitems)
      dsimp only
      rw [filed_map (Entry.commit batch) fun _ ↦ rfl]
      have hsame : filed jsonHash (fun entry ↦ (entry.commit batch).committed) s.journal =
          fun key ↦ (filed jsonHash (Entry.isIn batch) s.journal key).or
            (filed jsonHash Entry.committed s.journal key) := by
        funext key
        exact filed_or hdistinct
      rw [hsame]
      exact hunion
    case items =>
      intro other found hfound
      dsimp only at hfound ⊢
      rw [filed_map (Entry.commit batch) fun _ ↦ rfl]
      exact hfiled.items other found hfound
    case begun =>
      simp only [List.forall_mem_map]
      exact hfiled.begun

theorem Filed.step (hfiled : Filed jsonHash s) (hbefore : Distinct jsonHash s.journal)
    (hafter : Distinct jsonHash (step jsonHash s call).journal) :
    Filed jsonHash (step jsonHash s call) := by
  cases call with
  | updateBlockNum num => exact ⟨hfiled.db, hfiled.items, hfiled.begun⟩
  | beginBatch => exact hfiled.beginBatch
  | put batch payload sign => exact hfiled.put hafter
  | cancel batch => exact hfiled.cancel
  | commit batch => exact hfiled.commit hbefore

theorem Filed.run {calls : List Call} (hfiled : Filed jsonHash s) (hnumbered : Numbered s)
    (hincreasing : Schedules.Throughout (RecordIndex.step jsonHash) Increasing s calls)
    (hfinal : Distinguished jsonHash (calls.foldl (RecordIndex.step jsonHash) s).journal) :
    Filed jsonHash (calls.foldl (RecordIndex.step jsonHash) s) ∧
      Numbered (calls.foldl (RecordIndex.step jsonHash) s) := by
  induction calls generalizing s with
  | nil => exact ⟨hfiled, hnumbered⟩
  | cons call calls ih =>
    have hnext := hnumbered.step jsonHash hincreasing.1
    have hbefore := (Distinguished.of_run (call :: calls) hfinal).distinct hnumbered
    have hafter := (Distinguished.of_run calls hfinal).distinct hnext
    exact ih (hfiled.step hbefore hafter) hnext hincreasing.2 hfinal

end Steps

/-! ## The records of a block -/

/-- What is listed for a block: the records of the type that were put while the block had this
number and were committed before their batch was cancelled. -/
def Listed (journal : List Entry) (type : RecordType) (num : ℤ) (record : LKTransaction) : Prop :=
  ∃ entry ∈ journal, entry.committed = true ∧ entry.number = some num ∧
    record.payload.type = type ∧ entry.record = record

section Listing

variable {s : System} {type : RecordType} {num : ℤ} {record other : LKTransaction}

theorem filed_byIndex_iff (hdistinct : Distinct jsonHash s.journal) (hnumbered : Numbered s)
    {index : ℕ} :
    filed jsonHash Entry.committed s.journal (.byIndex type (some num) index) = some record ↔
      Listed s.journal type num record ∧ record.index = index := by
  rw [filed_eq_some_iff hdistinct]
  constructor
  · rintro ⟨entry, hmem, hcommitted, hkey | hkey, rfl⟩
    · cases hkey
    · obtain ⟨rfl, hnum, rfl⟩ := Key.byIndex.inj hkey
      rw [hnumbered.stamped entry hmem] at hnum
      exact ⟨⟨entry, hmem, hcommitted, hnum.symm, rfl, rfl⟩, rfl⟩
  · rintro ⟨⟨entry, hmem, hcommitted, hnumber, rfl, rfl⟩, rfl⟩
    refine ⟨entry, hmem, hcommitted, .inr ?_, rfl⟩
    rw [hnumbered.stamped entry hmem, hnumber]

theorem Listed.filed_byHash (hlisted : Listed s.journal type num record)
    (hdistinct : Distinct jsonHash s.journal) :
    filed jsonHash Entry.committed s.journal (.byHash type (record.hash jsonHash)) =
      some record := by
  obtain ⟨entry, hmem, hcommitted, -, rfl, rfl⟩ := hlisted
  exact (filed_eq_some_iff hdistinct).mpr ⟨entry, hmem, hcommitted, .inl rfl, rfl⟩

theorem Listed.eq_of_index (hlisted : Listed s.journal type num record)
    (hlisted' : Listed s.journal type num other) (hnumbered : Numbered s)
    (hindex : record.index = other.index) : record = other := by
  obtain ⟨entry, hmem, -, hnumber, -, rfl⟩ := hlisted
  obtain ⟨entry', hmem', -, hnumber', -, rfl⟩ := hlisted'
  exact hnumbered.unique entry hmem entry' hmem' (hnumber.trans hnumber'.symm) hindex

end Listing

/-- For every type and every number, the index lists exactly these records, each once, and finds
each by its hash. -/
theorem recordsByBlock_exact {calls : List Call} {s : System}
    (hs : s = calls.foldl (step jsonHash) .init)
    (hincreasing : Schedules.Throughout (step jsonHash) Increasing .init calls)
    (hdistinguished : Distinguished jsonHash s.journal) (type : RecordType) (num : ℤ) :
    ∃ records, getLKTransactionsByBlock s.db type.text num = .ok records ∧ records.Nodup ∧
      (∀ record, record ∈ records ↔ Listed s.journal type num record) ∧
      ∀ record ∈ records, getLKTransaction s.db type.text (hashText (record.hash jsonHash)) =
        .ok [record] := by
  subst hs
  obtain ⟨hfiled, hnumbered⟩ := filed_init.run numbered_init hincreasing hdistinguished
  have hdistinct := hdistinguished.distinct hnumbered
  generalize calls.foldl (step jsonHash) .init = s at *
  have htype : type.text = RecordType.text .contractTx ∨
      type.text = RecordType.text .suicideTx := by
    cases type
    · exact .inl rfl
    · exact .inr rfl
  obtain ⟨records, hrecords, hnodup, hiterate⟩ := hfiled.db.exists_items text_injective
    (type.text.toList ++ '-' :: (integer num ++ ['-'])) (Listed s.journal type num)
    (fun record ↦ (.byIndex type (some num) record.index, record))
    (fun record hlisted ↦ ⟨keyPrefix_iff.mpr ⟨record.index, rfl⟩,
      (filed_byIndex_iff hdistinct hnumbered).mpr ⟨hlisted, rfl⟩⟩)
    (fun key record hstart hcontents ↦ by
      obtain ⟨index, rfl⟩ := keyPrefix_iff.mp hstart
      obtain ⟨hlisted, rfl⟩ := (filed_byIndex_iff hdistinct hnumbered).mp hcontents
      exact ⟨record, hlisted, rfl⟩)
    (fun _ _ hlisted hlisted' hsame ↦
      hlisted.eq_of_index hlisted' hnumbered (Key.byIndex.inj hsame).2.2)
  refine ⟨records, ?_, hnodup, hrecords, ?_⟩
  · unfold getLKTransactionsByBlock
    rw [if_pos htype]
    dsimp only
    rw [hiterate, List.map_map]
    exact congrArg Except.ok (List.map_id records)
  · intro record hmem
    have hfound : s.db[(Key.byHash type (record.hash jsonHash)).text]? = some record := by
      rw [hfiled.db.read]
      exact ((hrecords record).mp hmem).filed_byHash hdistinct
    unfold getLKTransaction
    rw [if_pos htype]
    exact congrArg (fun found ↦ Except.ok found.toList) hfound

/-- A hash of two bytes. -/
def sampleHash (payload : Payload) (index : ℕ) : Bytes :=
  [UInt8.ofNat payload.txHash.toNat, UInt8.ofNat index]

/-- A transfer of a transaction. -/
def sampleTransfer (txHash : Hash) : Payload := .contractTx ⟨txHash, 1, 2, some 5⟩

/-- In block 1 a transfer and a self-destruction are committed and a transfer is cancelled; in block
12 a transfer is committed. -/
def sampleCalls : List Call :=
  [.updateBlockNum 1, .beginBatch, .put 0 (sampleTransfer 1) "",
    .put 0 (.suicideTx ⟨1, 1, 2, 3, some 7⟩) "",
    .commit 0, .beginBatch, .put 1 (sampleTransfer 2) "", .cancel 1, .commit 1, .updateBlockNum 12,
    .beginBatch, .put 2 (sampleTransfer 3) "", .commit 2]

/-- The transfers of block 1. -/
theorem recordsByBlock_exact_sample :
    let s := sampleCalls.foldl (step sampleHash) .init
    ∃ records, getLKTransactionsByBlock s.db "ct" 1 = .ok records ∧
      ∀ record, record ∈ records ↔ Listed s.journal .contractTx 1 record := by
  intro s
  have hincreasing : Schedules.Throughout (step sampleHash) Increasing .init sampleCalls := by
    refine ⟨?_, trivial, trivial, trivial, trivial, trivial, trivial, trivial, trivial, ?_, trivial,
      trivial, trivial, trivial⟩
    · exact fun n hn ↦ (by cases hn)
    · intro n hn
      cases hn
      decide
  have hdistinguished : Distinguished sampleHash s.journal := by
    constructor <;> decide +kernel
  obtain ⟨records, hlist, -, hrecords, -⟩ :=
    recordsByBlock_exact rfl hincreasing hdistinguished .contractTx 1
  exact ⟨records, hlist, hrecords⟩

/-- A record that was put in block 1 is listed there when its batch is committed in block 2. -/
theorem recordsByBlock_later_commit :
    let begun := [Call.updateBlockNum 1, .beginBatch, .put 0 (sampleTransfer 1) "",
      .updateBlockNum 2].foldl (step sampleHash) .init
    let s := step sampleHash begun (.commit 0)
    begun.gBlockNum = some 2 ∧ getLKTransactionsByBlock begun.db "ct" 1 = .ok [] ∧
      getLKTransactionsByBlock s.db "ct" 1 = .ok [⟨sampleTransfer 1, "", 1, some 1⟩] ∧
      getLKTransactionsByBlock s.db "ct" 2 = .ok [] := by
  decide +kernel

end LkChain.Ethermint.RecordIndex
