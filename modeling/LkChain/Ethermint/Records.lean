import LkChain.Ethermint.InternalTxs
import LkChain.Ethermint.Pending
import LkChain.Foundation.Buffers

/-!
# Records of internal transactions

While a transaction runs, `opCall` and `opSuicide` put a record of what they did into a batch, which
`deliverTx` commits at the end. The state is undone frame by frame, the batch is not: it is one flat
map, and only a `CALL` that fails clears it. So a record is lost when any later `CALL` fails, even
in a part of the transaction that has nothing to do with it, and the records of a frame that is
undone stay when it was not a `CALL`.

What a contract does is a list of the operations that matter here, in the order of their execution:
frames it opens, with what happens inside and whether they fail, and self-destructions. The outcomes
are arbitrary.
-/

namespace LkChain.Ethermint.Records

open Foundation
open Ethereum State Transactions Calls Transition Outcomes
open Pending InternalTxs

/-! ## The batch -/

/-- Who sends how much to whom. The target of a self-destruction is the recipient. -/
structure Transfer where
  sender : Address
  recipient : Address
  value : ℤ
deriving DecidableEq

/-- The record that `opCall` or `opSuicide` fills in. -/
def payload (txHash : Hash) (record : RecordType × Transfer) : Payload :=
  match record with
  | (.contractTx, ⟨sender, recipient, value⟩) => .contractTx ⟨txHash, sender, recipient, some value⟩
  | (.suicideTx, ⟨sender, recipient, value⟩) =>
    .suicideTx ⟨txHash, sender, recipient, recipient, some value⟩

structure EthTransactionGas where
  gasLimit : ℕ
  gasUsed : ℤ
  gasPrice : ℕ
  blockNum : ℕ
  ret : ℤ
  errmsg : Option VMError

/-- The keys of the batch, each a text of its own form. -/
inductive Key where
  | ethTx (hash : Hash)
  | byHash (type : RecordType) (hash : Hash)
  | byIndex (type : RecordType) (blockNum index : ℕ)
deriving DecidableEq

inductive Item where
  | gas (gas : EthTransactionGas)
  | internal (lkx : LKTransaction)

/-- `TxBatch` with the global counter it draws from and the number of the block. -/
structure TxBatch where
  items : Key → Option Item
  gTxIndex : ℕ
  gBlockNum : ℕ

/-- `Put` of an internal transaction: it is filed under its hash and under its index. -/
def TxBatch.put (jsonHash : LKTransaction → Hash) (txHash : Hash) (tb : TxBatch)
    (record : RecordType × Transfer) : TxBatch :=
  let lkx : LKTransaction := ⟨payload txHash record, "", tb.gTxIndex, some tb.gBlockNum⟩
  { tb with
    items := Function.update
      (Function.update tb.items (.byHash record.1 (jsonHash lkx)) (some (.internal lkx)))
      (.byIndex record.1 tb.gBlockNum tb.gTxIndex) (some (.internal lkx))
    gTxIndex := tb.gTxIndex + 1 }

/-- `Cancel`: the counter stays where it is. -/
def TxBatch.cancel (tb : TxBatch) : TxBatch := { tb with items := fun _ ↦ none }

/-- `Put` of the gas that a transaction used. -/
def TxBatch.putGas (tb : TxBatch) (txHash : Hash) (gas : EthTransactionGas) : TxBatch :=
  { tb with items := Function.update tb.items (.ethTx txHash) (some (.gas gas)) }

/-- The internal transactions that `Commit` writes. -/
def TxBatch.records (tb : TxBatch) : Set LKTransaction :=
  {lkx | ∃ key, tb.items key = some (.internal lkx)}

/-! ## What a contract does -/

inductive FrameKind where
  | call
  | callCode
  | delegateCall
  | staticCall
  | create
deriving DecidableEq

/-- The operations of a frame that open frames or destroy the contract. -/
inductive Ops where
  | done
  | suicide (transfer : Transfer) (rest : Ops)
  | frame (kind : FrameKind) (transfer : Transfer) (body : Ops) (failed : Bool) (rest : Ops)

section Run

variable (jsonHash : LKTransaction → Hash) (txHash : Hash)

/-- What the operation that opened a frame does with the batch when the frame returns: `opCall`
records the call or cancels the batch, `opCallCode`, `opDelegateCall`, `opStaticCall` and `opCreate`
leave it alone. -/
def closeFrame (kind : FrameKind) (transfer : Transfer) (failed : Bool) (tb : TxBatch) : TxBatch :=
  match kind with
  | .call => if failed then tb.cancel else tb.put jsonHash txHash (.contractTx, transfer)
  | .callCode | .delegateCall | .staticCall | .create => tb

/-- The batch after the operations of a frame. -/
def Ops.run : Ops → TxBatch → TxBatch
  | .done, tb => tb
  | .suicide transfer rest, tb => rest.run (tb.put jsonHash txHash (.suicideTx, transfer))
  | .frame kind transfer body failed rest, tb =>
    rest.run (closeFrame jsonHash txHash kind transfer failed (body.run tb))

/-- The batch of `work.deliverTx`, if it comes to a commit. `gTxIndex` is the counter before. -/
def deliverBatch (env : Environment) (gTxIndex : ℕ) (w : Work) (tx : Transaction) (ops : Ops) :
    Except Panic (Option TxBatch) :=
  match applyTransaction env (w.prepared env tx) w.header tx w.totalUsedGas with
  | .error panic => .error panic
  | .ok result =>
    match result.outcome with
    | .error _ => .ok none
    | .ok (_, gas) =>
      let tb := ops.run jsonHash (env.recovery.txHash tx) ⟨fun _ ↦ none, gTxIndex, w.header.number⟩
      let tb := if result.vmerr.isSome then tb.cancel else tb
      .ok (some (tb.putGas (env.recovery.txHash tx)
        ⟨tx.gasLimit, gas, tx.price, w.header.number, if result.vmerr.isSome then -1 else 0,
          result.vmerr⟩))

end Run

/-! ## What survives in the state -/

/-- The state after the operations of a frame. A frame that fails goes back to its snapshot. -/
def Ops.execute {S : Type} (apply : S → RecordType × Transfer → S) : Ops → S → S
  | .done, s => s
  | .suicide transfer rest, s => rest.execute apply (apply s (.suicideTx, transfer))
  | .frame kind transfer body failed rest, s =>
    let entered := if kind = .call then apply s (.contractTx, transfer) else s
    rest.execute apply (if failed then s else body.execute apply entered)

/-- The calls and self-destructions in frames that succeed with all frames around them. -/
def Ops.surviving : Ops → List (RecordType × Transfer)
  | .done => []
  | .suicide transfer rest => (.suicideTx, transfer) :: rest.surviving
  | .frame kind transfer body failed rest =>
    (if failed then []
      else (if kind = .call then [(.contractTx, transfer)] else []) ++ body.surviving) ++
      rest.surviving

theorem execute_eq_foldl {S : Type} (apply : S → RecordType × Transfer → S) (ops : Ops) (s : S) :
    ops.execute apply s = ops.surviving.foldl apply s := by
  induction ops generalizing s with
  | done => rfl
  | suicide transfer rest ih => exact ih _
  | frame kind transfer body failed rest ihbody ih =>
    rw [Ops.execute, Ops.surviving, List.foldl_append, ih]
    cases failed with
    | true => rfl
    | false =>
      rw [if_neg Bool.false_ne_true, if_neg Bool.false_ne_true, List.foldl_append, ihbody]
      by_cases hcall : kind = .call
      · rw [if_pos hcall, if_pos hcall]
        rfl
      · rw [if_neg hcall, if_neg hcall]
        rfl

/-! ## The batch as a flat buffer -/

/-- What happens to the batch, and whether each record is one that survives. `survives` says that of
the frame itself. -/
def Ops.steps (survives : Bool) : Ops → List (Buffers.Step (RecordType × Transfer))
  | .done => []
  | .suicide transfer rest => .put (.suicideTx, transfer) survives :: rest.steps survives
  | .frame kind transfer body failed rest =>
    body.steps (survives && !failed) ++
      (if kind = .call then
        [if failed then .clear else .put (.contractTx, transfer) survives] else []) ++
      rest.steps survives

theorem wanted_append {Element : Type} (first second : List (Buffers.Step Element)) :
    Buffers.wanted (first ++ second) = Buffers.wanted first ++ Buffers.wanted second :=
  List.filterMap_append

theorem wanted_steps_false (ops : Ops) : Buffers.wanted (ops.steps false) = [] := by
  induction ops with
  | done => rfl
  | suicide transfer rest ih => exact ih
  | frame kind transfer body failed rest ihbody ih =>
    rw [Ops.steps, Bool.false_and, wanted_append, wanted_append, ihbody, ih, List.append_nil,
      List.nil_append]
    cases kind with
    | call => cases failed <;> rfl
    | callCode | delegateCall | staticCall | create => rfl

theorem wanted_steps_perm (ops : Ops) : (Buffers.wanted (ops.steps true)).Perm ops.surviving := by
  induction ops with
  | done => exact List.Perm.refl []
  | suicide transfer rest ih => exact ih.cons _
  | frame kind transfer body failed rest ihbody ih =>
    rw [Ops.steps, Ops.surviving, wanted_append, wanted_append]
    apply List.Perm.append _ ih
    cases failed with
    | true =>
      rw [Bool.not_true, Bool.and_false, wanted_steps_false, List.nil_append, if_pos rfl]
      cases kind <;> exact List.Perm.refl []
    | false =>
      rw [Bool.not_false, Bool.and_true, if_neg Bool.false_ne_true]
      cases kind with
      | call => exact List.perm_append_comm.trans (ihbody.append_left _)
      | callCode | delegateCall | staticCall | create =>
        exact (List.append_nil _).symm ▸ ihbody

section Batch

variable (jsonHash : LKTransaction → Hash) (txHash : Hash)

/-- One step of the flat buffer, on the batch. -/
def TxBatch.step (tb : TxBatch) : Buffers.Step (RecordType × Transfer) → TxBatch
  | .put record _ => tb.put jsonHash txHash record
  | .clear => tb.cancel

theorem run_eq_foldl (survives : Bool) (ops : Ops) (tb : TxBatch) :
    ops.run jsonHash txHash tb = (ops.steps survives).foldl (TxBatch.step jsonHash txHash) tb := by
  induction ops generalizing tb survives with
  | done => rfl
  | suicide transfer rest ih => exact ih survives _
  | frame kind transfer body failed rest ihbody ih =>
    rw [Ops.run, Ops.steps, List.foldl_append, List.foldl_append, ← ihbody, ← ih]
    cases kind with
    | call => cases failed <;> rfl
    | callCode | delegateCall | staticCall | create => rfl

variable (blockNum : ℕ)

/-- The record with a number. -/
def stamp (entry : ℕ × RecordType × Transfer) : LKTransaction :=
  ⟨payload txHash entry.2, "", entry.1, some blockNum⟩

variable {txHash blockNum} in
theorem stamp_injective : Function.Injective (stamp txHash blockNum) := by
  rintro ⟨index, type, _, _, _⟩ ⟨index', type', _, _, _⟩ hsame
  cases type <;> cases type' <;> cases hsame <;> rfl

/-- The batch holds these records, all of them under their index. -/
structure Holds (tb : TxBatch) (entries : List (ℕ × RecordType × Transfer)) : Prop where
  filed : ∀ entry ∈ entries, tb.items (.byIndex entry.2.1 blockNum entry.1) =
    some (.internal (stamp txHash blockNum entry))
  only : ∀ key lkx, tb.items key = some (.internal lkx) →
    ∃ entry ∈ entries, lkx = stamp txHash blockNum entry
  below : ∀ entry ∈ entries, entry.1 < tb.gTxIndex
  block : tb.gBlockNum = blockNum

variable {jsonHash txHash blockNum} {tb : TxBatch} {entries : List (ℕ × RecordType × Transfer)}

theorem Holds.records_eq (hholds : Holds txHash blockNum tb entries) :
    tb.records = {lkx | ∃ entry ∈ entries, lkx = stamp txHash blockNum entry} := by
  ext lkx
  constructor
  · rintro ⟨key, hkey⟩
    exact hholds.only key lkx hkey
  · rintro ⟨entry, hentry, rfl⟩
    exact ⟨_, hholds.filed entry hentry⟩

theorem Holds.cancel (hholds : Holds txHash blockNum tb entries) :
    Holds txHash blockNum tb.cancel [] where
  filed _ hentry := absurd hentry List.not_mem_nil
  only _ _ hkey := by cases hkey
  below _ hentry := absurd hentry List.not_mem_nil
  block := hholds.block

variable (jsonHash txHash tb) in
theorem items_put (record : RecordType × Transfer) :
    (tb.put jsonHash txHash record).items =
      Function.update
        (Function.update tb.items
          (.byHash record.1 (jsonHash (stamp txHash tb.gBlockNum (tb.gTxIndex, record))))
          (some (.internal (stamp txHash tb.gBlockNum (tb.gTxIndex, record)))))
        (.byIndex record.1 tb.gBlockNum tb.gTxIndex)
        (some (.internal (stamp txHash tb.gBlockNum (tb.gTxIndex, record)))) := rfl

theorem Holds.put (hholds : Holds txHash blockNum tb entries) (record : RecordType × Transfer) :
    Holds txHash blockNum (tb.put jsonHash txHash record)
      (entries ++ [(tb.gTxIndex, record)]) where
  filed entry hentry := by
    obtain ⟨hfiled, -, hbelow, rfl⟩ := hholds
    rw [items_put]
    cases List.mem_append.mp hentry with
    | inl hearlier =>
      have hother : Key.byIndex entry.2.1 tb.gBlockNum entry.1 ≠
          .byIndex record.1 tb.gBlockNum tb.gTxIndex := by
        intro hsame
        exact (hbelow entry hearlier).ne (Key.byIndex.inj hsame).2.2
      rw [Function.update_of_ne hother, Function.update_of_ne (by simp)]
      exact hfiled entry hearlier
    | inr hlast => rw [List.mem_singleton.mp hlast, Function.update_self]
  only key lkx hkey := by
    obtain ⟨-, honly, -, rfl⟩ := hholds
    have hlast : (tb.gTxIndex, record) ∈ entries ++ [(tb.gTxIndex, record)] :=
      List.mem_append_right _ List.mem_cons_self
    rw [items_put] at hkey
    by_cases hindex : key = .byIndex record.1 tb.gBlockNum tb.gTxIndex
    · rw [hindex, Function.update_self] at hkey
      cases hkey
      exact ⟨_, hlast, rfl⟩
    · rw [Function.update_of_ne hindex] at hkey
      by_cases hhash : key = .byHash record.1
          (jsonHash (stamp txHash tb.gBlockNum (tb.gTxIndex, record)))
      · rw [hhash, Function.update_self] at hkey
        cases hkey
        exact ⟨_, hlast, rfl⟩
      · rw [Function.update_of_ne hhash] at hkey
        obtain ⟨entry, hentry, hstamp⟩ := honly key lkx hkey
        exact ⟨entry, List.mem_append_left _ hentry, hstamp⟩
  below entry hentry := by
    cases List.mem_append.mp hentry with
    | inl hearlier => exact Nat.lt_succ_of_lt (hholds.below entry hearlier)
    | inr hlast =>
      rw [List.mem_singleton.mp hlast]
      exact Nat.lt_succ_self _
  block := hholds.block

theorem items_putGas (gas : EthTransactionGas) :
    (tb.putGas txHash gas).items = Function.update tb.items (.ethTx txHash) (some (.gas gas)) :=
  rfl

theorem Holds.putGas (hholds : Holds txHash blockNum tb entries) (gas : EthTransactionGas) :
    Holds txHash blockNum (tb.putGas txHash gas) entries where
  filed entry hentry := by
    rw [items_putGas, Function.update_of_ne (by simp)]
    exact hholds.filed entry hentry
  only key lkx hkey := by
    rw [items_putGas] at hkey
    by_cases hgas : key = .ethTx txHash
    · rw [hgas, Function.update_self] at hkey
      cases hkey
    · rw [Function.update_of_ne hgas] at hkey
      exact hholds.only key lkx hkey
  below := hholds.below
  block := hholds.block

/-- The batch after some steps holds what a flat buffer keeps of the numbered records. -/
theorem Holds.foldl (steps : List (Buffers.Step (RecordType × Transfer)))
    (hholds : Holds txHash blockNum tb entries) :
    Holds txHash blockNum (steps.foldl (TxBatch.step jsonHash txHash) tb)
      ((Buffers.numbered tb.gTxIndex steps).foldl Buffers.keep entries) := by
  induction steps generalizing tb entries with
  | nil => exact hholds
  | cons step steps ih =>
    cases step with
    | put record survives => exact ih (hholds.put record)
    | clear => exact ih hholds.cancel

theorem holds_begin (gTxIndex : ℕ) :
    Holds txHash blockNum ⟨fun _ ↦ none, gTxIndex, blockNum⟩ [] where
  filed _ hentry := absurd hentry List.not_mem_nil
  only _ _ hkey := by cases hkey
  below _ hentry := absurd hentry List.not_mem_nil
  block := rfl

theorem holds_run (gTxIndex : ℕ) (ops : Ops) :
    Holds txHash blockNum (ops.run jsonHash txHash ⟨fun _ ↦ none, gTxIndex, blockNum⟩)
      (Buffers.kept (Buffers.numbered gTxIndex (ops.steps true))) := by
  rw [run_eq_foldl jsonHash txHash true]
  exact (holds_begin gTxIndex).foldl (ops.steps true)

end Batch

/-! ## The records of a delivery -/

/-- The records that the calls and self-destructions in a transaction should leave: one for each
that survives, under the number it was put with. A transaction that fails should leave none. -/
def expectedRecords (txHash : Hash) (blockNum gTxIndex : ℕ) (ops : Ops) (failed : Bool) :
    Set LKTransaction :=
  if failed then ∅
  else {lkx | ∃ entry ∈ Buffers.wanted (Buffers.numbered gTxIndex (ops.steps true)),
    lkx = stamp txHash blockNum entry}

variable {env : Environment} {w after : Work} {tx : Transaction}

/-- A delivery that returns nil has executed the transaction, and its batch is committed. -/
theorem result_of_deliverTx (hdelivered : deliverTx env true w tx = .ok (after, none)) :
    ∃ result receipt gas,
      applyTransaction env (w.prepared env tx) w.header tx w.totalUsedGas = .ok result ∧
      result.outcome = .ok (receipt, gas) ∧ receipt.failed = result.vmerr.isSome ∧
      after.receipts = w.receipts ++ [receipt] := by
  have houtcome := applyTransaction_outcome env (w.prepared env tx) w.header tx w.totalUsedGas
  unfold deliverTx at hdelivered
  generalize applyTransaction env (w.prepared env tx) w.header tx w.totalUsedGas = applied
    at hdelivered houtcome
  cases houtcome with
  | unsigned | refused | underpaid | overdrawn => cases hdelivered
  | executed msg hmsg hcovers =>
    cases hdelivered
    exact ⟨_, _, _, rfl, rfl, rfl, rfl⟩

theorem stamped_eq_iff {txHash : Hash} {blockNum : ℕ}
    {entries others : List (ℕ × RecordType × Transfer)} :
    {lkx | ∃ entry ∈ entries, lkx = stamp txHash blockNum entry} =
        {lkx | ∃ entry ∈ others, lkx = stamp txHash blockNum entry} ↔
      ∀ entry, entry ∈ entries ↔ entry ∈ others := by
  have hmem : ∀ (entries : List (ℕ × RecordType × Transfer)) entry,
      stamp txHash blockNum entry ∈ {lkx | ∃ entry ∈ entries, lkx = stamp txHash blockNum entry} ↔
        entry ∈ entries := by
    intro entries entry
    constructor
    · rintro ⟨other, hother, hsame⟩
      rw [stamp_injective hsame]
      exact hother
    · exact fun hentry ↦ ⟨entry, hentry, rfl⟩
  constructor
  · intro hsame entry
    rw [← hmem entries, hsame, hmem]
  · intro hsame
    ext lkx
    exact exists_congr fun entry ↦ and_congr_left fun _ ↦ hsame entry

/-- The records of a transaction that was executed are those of the operations that survive in the
state, exactly when the transaction failed as a whole, or no `CALL` failed after an operation that
survives and some `CALL` failed after every one that does not. -/
theorem records_exact_iff (jsonHash : LKTransaction → Hash) (gTxIndex : ℕ) (ops : Ops)
    (hdelivered : deliverTx env true w tx = .ok (after, none)) :
    ∃ receipt tb, after.receipts = w.receipts ++ [receipt] ∧
      deliverBatch jsonHash env gTxIndex w tx ops = .ok (some tb) ∧
      (tb.records = expectedRecords (env.recovery.txHash tx) w.header.number gTxIndex ops
          receipt.failed ↔
        receipt.failed = true ∨
          Buffers.NoneLost (ops.steps true) ∧ Buffers.NoneLeft (ops.steps true)) ∧
      ((Buffers.wanted (Buffers.numbered gTxIndex (ops.steps true))).map Prod.snd).Perm
        ops.surviving ∧
      ∀ (S : Type) (apply : S → RecordType × Transfer → S) (s : S),
        ops.execute apply s = ops.surviving.foldl apply s := by
  obtain ⟨result, receipt, gas, happlied, houtcome, hfailed, hreceipts⟩ :=
    result_of_deliverTx hdelivered
  have hbatch : ∃ tb, deliverBatch jsonHash env gTxIndex w tx ops = .ok (some tb) ∧
      Holds (env.recovery.txHash tx) w.header.number tb
        (if receipt.failed then [] else
          Buffers.kept (Buffers.numbered gTxIndex (ops.steps true))) := by
    have hrun : Holds (env.recovery.txHash tx) w.header.number
        (ops.run jsonHash (env.recovery.txHash tx) ⟨fun _ ↦ none, gTxIndex, w.header.number⟩) _ :=
      holds_run gTxIndex ops
    unfold deliverBatch
    rw [happlied]
    dsimp only
    rw [houtcome]
    refine ⟨_, rfl, ?_⟩
    rw [hfailed]
    apply Holds.putGas
    split
    · exact hrun.cancel
    · exact hrun
  obtain ⟨tb, htb, hholds⟩ := hbatch
  refine ⟨receipt, tb, hreceipts, htb, ?_, ?_, fun S apply s ↦ execute_eq_foldl apply ops s⟩
  · rw [hholds.records_eq, expectedRecords]
    cases receipt.failed with
    | true => simp
    | false =>
      rw [if_neg Bool.false_ne_true, if_neg Bool.false_ne_true, stamped_eq_iff,
        Buffers.kept_exact_iff (Buffers.nodup_puts_numbered gTxIndex), Buffers.noneLost_numbered,
        Buffers.noneLeft_numbered]
      simp
  · rw [Buffers.map_snd_wanted_numbered]
    exact wanted_steps_perm ops

/-! ## Three transactions -/

/-- A call of account 8 by account 7. -/
def sampleCall : Transaction := sampleTransfer 8 1 21000 0

def sampleWork : Work := emptyWork (sampleHeader 9) (soleAccount 7 100000)

/-- The called contract pays two others and destroys itself. -/
def threePayments : Ops :=
  .frame .call ⟨8, 1, 10⟩ .done false
    (.frame .call ⟨8, 2, 20⟩ .done false (.suicide ⟨8, 3, 70⟩ .done))

theorem records_exact_threePayments : ∃ tb,
    deliverBatch (fun _ ↦ 0) (sampleEnvironment 7 stopInterpreter) 1 sampleWork sampleCall
      threePayments = .ok (some tb) ∧
    tb.records = expectedRecords 0 1 1 threePayments false := by
  obtain ⟨after, hdelivered⟩ : ∃ after,
      deliverTx (sampleEnvironment 7 stopInterpreter) true sampleWork sampleCall =
        .ok (after, none) := ⟨_, rfl⟩
  obtain ⟨receipt, tb, hreceipts, htb, hexact, -⟩ :=
    records_exact_iff (fun _ ↦ 0) 1 threePayments hdelivered
  cases hdelivered
  cases List.append_cancel_left hreceipts
  refine ⟨tb, htb, hexact.mpr (.inr ⟨?_, ?_⟩)⟩
  · simp [threePayments, Ops.steps, Buffers.NoneLost, Buffers.Step.fate]
  · simp [threePayments, Ops.steps, Buffers.NoneLeft, Buffers.Step.fate]

/-- The called contract pays one account and then calls another one, which fails. -/
def paidThenFailed : Ops :=
  .frame .call ⟨8, 1, 10⟩ .done false (.frame .call ⟨8, 2, 20⟩ .done true .done)

/-- Code that is run by `DELEGATECALL` pays an account and fails. -/
def undonePayment : Ops :=
  .frame .delegateCall ⟨8, 5, 0⟩ (.frame .call ⟨8, 1, 10⟩ .done false .done) true .done

/-- The payment that is made is not recorded, since another call failed later. The payment that is
undone is recorded, since the frame that failed was no `CALL`. -/
theorem records_lost_and_left : ∃ after lost left,
    deliverTx (sampleEnvironment 7 stopInterpreter) true sampleWork sampleCall =
      .ok (after, none) ∧
    deliverBatch (fun _ ↦ 0) (sampleEnvironment 7 stopInterpreter) 1 sampleWork sampleCall
      paidThenFailed = .ok (some lost) ∧
    paidThenFailed.surviving = [(.contractTx, ⟨8, 1, 10⟩)] ∧ lost.records = ∅ ∧
    deliverBatch (fun _ ↦ 0) (sampleEnvironment 7 stopInterpreter) 1 sampleWork sampleCall
      undonePayment = .ok (some left) ∧
    undonePayment.surviving = [] ∧
    (⟨.contractTx ⟨0, 8, 1, some 10⟩, "", 1, some 1⟩ : LKTransaction) ∈ left.records := by
  refine ⟨_, _, _, rfl, rfl, rfl, ?_, rfl, rfl, ⟨.byIndex .contractTx 1 1, rfl⟩⟩
  apply Set.eq_empty_of_forall_notMem
  rintro lkx ⟨key, hkey⟩
  by_cases hgas : key = .ethTx 0
  · rw [hgas] at hkey
    cases hkey
  · cases (Function.update_of_ne hgas _ _).symm.trans hkey

end LkChain.Ethermint.Records
