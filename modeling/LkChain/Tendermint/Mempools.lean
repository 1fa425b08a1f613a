import LkChain.Foundation.Results
import Mathlib.Algebra.Order.Ring.Int
import Mathlib.Data.List.Basic
import Mathlib.Logic.Function.Basic

/-!
# The mempool

`mempool.Mempool` keeps the transactions that the application has admitted, in the order of its
answers, and those it has put off until later. `Update` takes out what a block contains and checks
the postponed ones again, in order. Everything runs under one lock, and the answers of the
application arrive in the order of the requests, so that a check and its callback are one step.

The application is a parameter. The theorems assume that it keeps a record of what it admits, and
say that the mempool holds a part of that record in its order. Notifications of the consensus
engine are left out: they do not touch the lists.
-/

namespace LkChain.Tendermint.Mempools

open Foundation

def cacheSize : ℕ := 100000

/-- The code with which the application puts off a transaction. -/
def futurenum : ℕ := 9999

structure MempoolTx (Tx : Type) where
  counter : ℕ
  height : ℕ
  tx : Tx

/-- `txCache`: what was seen, and in which order. `Remove` forgets a transaction but not its
place. -/
structure TxCache (Tx : Type) where
  map : Tx → Bool
  list : List Tx

structure Mempool (Tx : Type) where
  txs : List (MempoolTx Tx)
  futuretxs : List (MempoolTx Tx)
  counter : ℕ
  height : ℕ
  cache : TxCache Tx
  notifyTx : Bool

section Cache

variable {Tx : Type} [DecidableEq Tx]

/-- `newTxCache`, and what `Reset` leaves. -/
def newTxCache (Tx : Type) : TxCache Tx := ⟨fun _ ↦ false, []⟩

/-- `Exists`. -/
def TxCache.existsTx (cache : TxCache Tx) (tx : Tx) : Bool := cache.map tx

/-- Room for one more: the front of a full list goes, and the map forgets it. -/
def TxCache.dropFront (cache : TxCache Tx) (size : ℕ) : TxCache Tx :=
  match cache.list with
  | [] => cache
  | popped :: rest =>
    if size ≤ cache.list.length then ⟨Function.update cache.map popped false, rest⟩ else cache

/-- `Push`, and whether the transaction was not cached before. -/
def TxCache.push (cache : TxCache Tx) (size : ℕ) (tx : Tx) : TxCache Tx × Bool :=
  if cache.map tx then (cache, false)
  else
    let room := cache.dropFront size
    (⟨Function.update room.map tx true, room.list ++ [tx]⟩, true)

def TxCache.remove (cache : TxCache Tx) (tx : Tx) : TxCache Tx :=
  { cache with map := Function.update cache.map tx false }

end Cache

def newMempool (Tx : Type) (height : ℕ) : Mempool Tx :=
  ⟨[], [], 0, height, newTxCache Tx, false⟩

def Mempool.flush {Tx : Type} (mem : Mempool Tx) : Mempool Tx :=
  { mem with txs := [], futuretxs := [], cache := newTxCache Tx }

/-- `Reap` and `collectTxs`; a negative number means all. -/
def Mempool.reap {Tx : Type} (mem : Mempool Tx) (maxTxs : ℤ) : List Tx :=
  if maxTxs < 0 then mem.txs.map MempoolTx.tx else (mem.txs.take maxTxs.toNat).map MempoolTx.tx

section Callbacks

variable {Tx : Type} [DecidableEq Tx]

/-- A good transaction goes to the back of the list. -/
def Mempool.pushBack (mem : Mempool Tx) (tx : Tx) : Mempool Tx :=
  { mem with
    counter := mem.counter + 1
    txs := mem.txs ++ [⟨mem.counter + 1, mem.height, tx⟩] }

def Mempool.resCbNormal (mem : Mempool Tx) (tx : Tx) (code : ℕ) : Mempool Tx :=
  if code = 0 then mem.pushBack tx
  else if code = futurenum then { mem with futuretxs := mem.futuretxs ++ [⟨0, 0, tx⟩] }
  else { mem with cache := mem.cache.remove tx }

/-- `resCbRecheck` for one of the postponed transactions: whether it stays among them. -/
def Mempool.resCbRecheck (mem : Mempool Tx) (memTx : MempoolTx Tx) (code : ℕ) : Mempool Tx × Bool :=
  if code = 0 then (mem.pushBack memTx.tx, false)
  else if code = futurenum then (mem, true)
  else ({ mem with cache := mem.cache.remove memTx.tx }, false)

def Mempool.filterTxsNoResult (mem : Mempool Tx) (blockTxs : List Tx) : Mempool Tx :=
  { mem with
    txs := mem.txs.filter fun memTx ↦ !blockTxs.contains memTx.tx
    cache := (mem.txs.filter fun memTx ↦ blockTxs.contains memTx.tx).foldl
      (fun cache memTx ↦ cache.remove memTx.tx) mem.cache }

end Callbacks

section Checks

variable {Tx App Panic : Type} [DecidableEq Tx] (check : App → Tx → Except Panic (App × ℕ))

/-- `CheckTx`. `connFails` is whether the connection to the application is broken. -/
def Mempool.checkTx (mem : Mempool Tx) (app : App) (tx : Tx) (connFails : Bool) :
    Except Panic (Mempool Tx × App) :=
  if mem.cache.existsTx tx then .ok (mem, app)
  else
    let mem := { mem with cache := (mem.cache.push cacheSize tx).1 }
    if connFails then .ok (mem, app)
    else do
      let (app, code) ← check app tx
      return (mem.resCbNormal tx code, app)

/-- `recheckFutureTxs`: the postponed transactions one after the other, and those that stay. -/
def recheckFutureTxs : Mempool Tx → App → List (MempoolTx Tx) →
    Except Panic (Mempool Tx × App × List (MempoolTx Tx))
  | mem, app, [] => .ok (mem, app, [])
  | mem, app, memTx :: rest => do
    let (app, code) ← check app memTx.tx
    let answered := mem.resCbRecheck memTx code
    let (mem, app, later) ← recheckFutureTxs answered.1 app rest
    return (mem, app, if answered.2 then memTx :: later else later)

def Mempool.update (mem : Mempool Tx) (app : App) (height : ℕ) (blockTxs : List Tx) :
    Except Panic (Mempool Tx × App) := do
  let mem := { mem with height := height }.filterTxsNoResult blockTxs
  if mem.notifyTx then
    let (after, app, later) ← recheckFutureTxs check mem app mem.futuretxs
    return ({ after with futuretxs := later }, app)
  else return (mem, app)

end Checks

/-! ## What a call does -/

section Calls

variable {Tx App Panic : Type} [DecidableEq Tx] {check : App → Tx → Except Panic (App × ℕ)}
  {mem after : Mempool Tx} {app later : App}

theorem checkTx_cases {tx : Tx} {connFails : Bool}
    (hchecked : mem.checkTx check app tx connFails = .ok (after, later)) :
    (after.txs = mem.txs ∧ after.futuretxs = mem.futuretxs ∧ later = app) ∨
      ∃ code, check app tx = .ok (later, code) ∧
        after = { mem with cache := (mem.cache.push cacheSize tx).1 }.resCbNormal tx code := by
  unfold Mempool.checkTx at hchecked
  dsimp only at hchecked
  split_ifs at hchecked
  · cases hchecked
    exact .inl ⟨rfl, rfl, rfl⟩
  · cases hchecked
    exact .inl ⟨rfl, rfl, rfl⟩
  · rw [Results.bind_eq_ok_iff] at hchecked
    obtain ⟨⟨checkedApp, code⟩, hcheck, hreturn⟩ := hchecked
    cases hreturn
    exact .inr ⟨code, hcheck, rfl⟩

/-- An update takes the transactions of the block out, and may check the postponed ones again. -/
theorem update_cases {height : ℕ} {blockTxs : List Tx}
    (hupdated : mem.update check app height blockTxs = .ok (after, later)) :
    (mem.notifyTx = false ∧ after = { mem with height := height }.filterTxsNoResult blockTxs ∧
        later = app) ∨
      mem.notifyTx = true ∧
        ∃ checked kept, recheckFutureTxs check ({ mem with height := height }.filterTxsNoResult
            blockTxs) app mem.futuretxs = .ok (checked, later, kept) ∧
          after = { checked with futuretxs := kept } := by
  unfold Mempool.update at hupdated
  dsimp only at hupdated
  split_ifs at hupdated with hnotify
  · rw [Results.bind_eq_ok_iff] at hupdated
    obtain ⟨⟨checkedMem, checkedApp, kept⟩, hrechecked, hreturn⟩ := hupdated
    cases hreturn
    exact .inr ⟨hnotify, checkedMem, kept, hrechecked, rfl⟩
  · cases hupdated
    exact .inl ⟨Bool.not_eq_true _ ▸ hnotify, rfl, rfl⟩

end Calls

/-! ## What the checks keep in the application -/

section Invariants

variable {Tx App Panic : Type} [DecidableEq Tx] {check : App → Tx → Except Panic (App × ℕ)}
  {Invariant : App → Prop} {Allowed : Tx → Prop} {mem after : Mempool Tx} {app later : App}

/-- Checking an allowed transaction keeps an invariant of the application. -/
def Keeps (check : App → Tx → Except Panic (App × ℕ)) (Allowed : Tx → Prop)
    (Invariant : App → Prop) : Prop :=
  ∀ app tx later code, Allowed tx → Invariant app → check app tx = .ok (later, code) →
    Invariant later

theorem Keeps.checkTx (hkeeps : Keeps check Allowed Invariant) {tx : Tx} {connFails : Bool}
    (hallowed : Allowed tx) (happ : Invariant app)
    (hchecked : mem.checkTx check app tx connFails = .ok (after, later)) : Invariant later := by
  cases checkTx_cases hchecked with
  | inl huntouched =>
    rw [huntouched.2.2]
    exact happ
  | inr hanswered =>
    obtain ⟨code, hcheck, -⟩ := hanswered
    exact hkeeps app tx later code hallowed happ hcheck

theorem Keeps.recheckFutureTxs (hkeeps : Keeps check Allowed Invariant)
    {future kept : List (MempoolTx Tx)} (hallowed : ∀ memTx ∈ future, Allowed memTx.tx)
    (happ : Invariant app)
    (hrechecked : recheckFutureTxs check mem app future = .ok (after, later, kept)) :
    Invariant later := by
  induction future generalizing mem app kept with
  | nil =>
    cases hrechecked
    exact happ
  | cons memTx rest ih =>
    rw [List.forall_mem_cons] at hallowed
    unfold Mempools.recheckFutureTxs at hrechecked
    simp only [Results.bind_eq_ok_iff] at hrechecked
    obtain ⟨⟨checkedApp, code⟩, hcheck, ⟨restMem, restApp, restKept⟩, hrest, hreturn⟩ := hrechecked
    cases hreturn
    apply ih hallowed.2 _ hrest
    exact hkeeps app memTx.tx checkedApp code hallowed.1 happ hcheck

theorem Keeps.update (hkeeps : Keeps check Allowed Invariant) {height : ℕ} {blockTxs : List Tx}
    (hallowed : ∀ memTx ∈ mem.futuretxs, Allowed memTx.tx) (happ : Invariant app)
    (hupdated : mem.update check app height blockTxs = .ok (after, later)) : Invariant later := by
  cases update_cases hupdated with
  | inl hfiltered =>
    rw [hfiltered.2.2]
    exact happ
  | inr hrechecked =>
    obtain ⟨-, checked, kept, hrechecked, -⟩ := hrechecked
    exact hkeeps.recheckFutureTxs hallowed happ hrechecked

end Invariants

/-! ## The order of the list -/

section Order

variable {Tx App Panic : Type} [DecidableEq Tx] {check : App → Tx → Except Panic (App × ℕ)}
  {record : App → List Tx} {mem after : Mempool Tx} {app later : App}

/-- The transactions of the list, in order. -/
def Mempool.listed (mem : Mempool Tx) : List Tx := mem.txs.map MempoolTx.tx

/-- The application records what it admits and nothing else. -/
def Records (check : App → Tx → Except Panic (App × ℕ)) (record : App → List Tx) : Prop :=
  ∀ app tx later code, check app tx = .ok (later, code) →
    record later = if code = 0 then record app ++ [tx] else record app

omit [DecidableEq Tx] in
theorem listed_pushBack (mem : Mempool Tx) (tx : Tx) :
    (mem.pushBack tx).listed = mem.listed ++ [tx] := List.map_append

omit [DecidableEq Tx] in
theorem sublist_reap (mem : Mempool Tx) (maxTxs : ℤ) : (mem.reap maxTxs).Sublist mem.listed := by
  unfold Mempool.reap
  split
  · exact List.Sublist.refl _
  · exact (List.take_sublist _ _).map _

/-- An answer of the application moves the list as it moves the record. -/
theorem listed_resCbNormal (mem : Mempool Tx) (tx : Tx) (code : ℕ) :
    (mem.resCbNormal tx code).listed = if code = 0 then mem.listed ++ [tx] else mem.listed := by
  unfold Mempool.resCbNormal
  split_ifs
  · exact listed_pushBack mem tx
  · rfl
  · rfl

theorem listed_resCbRecheck (mem : Mempool Tx) (memTx : MempoolTx Tx) (code : ℕ) :
    (mem.resCbRecheck memTx code).1.listed =
      if code = 0 then mem.listed ++ [memTx.tx] else mem.listed := by
  unfold Mempool.resCbRecheck
  split_ifs
  · exact listed_pushBack mem memTx.tx
  · rfl
  · rfl

omit [DecidableEq Tx] in
theorem sublist_answer {tx : Tx} {code : ℕ} {listed recorded : List Tx}
    (hsublist : listed.Sublist recorded) :
    (if code = 0 then listed ++ [tx] else listed).Sublist
      (if code = 0 then recorded ++ [tx] else recorded) := by
  split_ifs
  · exact hsublist.append (List.Sublist.refl _)
  · exact hsublist

theorem sublist_checkTx (hrecords : Records check record)
    (hsublist : mem.listed.Sublist (record app)) {tx : Tx} {connFails : Bool}
    (hchecked : mem.checkTx check app tx connFails = .ok (after, later)) :
    after.listed.Sublist (record later) := by
  cases checkTx_cases hchecked with
  | inl huntouched =>
    obtain ⟨htxs, -, happ⟩ := huntouched
    unfold Mempool.listed
    rw [htxs, happ]
    exact hsublist
  | inr hanswered =>
    obtain ⟨code, hcheck, hafter⟩ := hanswered
    rw [hafter, listed_resCbNormal, hrecords app tx later code hcheck]
    exact sublist_answer hsublist

theorem sublist_recheckFutureTxs (hrecords : Records check record)
    {future kept : List (MempoolTx Tx)} (hsublist : mem.listed.Sublist (record app))
    (hrechecked : recheckFutureTxs check mem app future = .ok (after, later, kept)) :
    after.listed.Sublist (record later) ∧ kept.Sublist future := by
  induction future generalizing mem app kept with
  | nil =>
    cases hrechecked
    exact ⟨hsublist, List.Sublist.refl []⟩
  | cons memTx rest ih =>
    unfold recheckFutureTxs at hrechecked
    simp only [Results.bind_eq_ok_iff] at hrechecked
    obtain ⟨⟨checkedApp, code⟩, hcheck, ⟨restMem, restApp, restKept⟩, hrest, hreturn⟩ := hrechecked
    cases hreturn
    have hanswer : (mem.resCbRecheck memTx code).1.listed.Sublist (record checkedApp) := by
      rw [listed_resCbRecheck, hrecords app memTx.tx checkedApp code hcheck]
      exact sublist_answer hsublist
    obtain ⟨hlisted, hkept⟩ := ih hanswer hrest
    refine ⟨hlisted, ?_⟩
    split_ifs
    · exact hkept.cons_cons memTx
    · exact hkept.cons memTx

theorem sublist_update (hrecords : Records check record)
    (hsublist : mem.listed.Sublist (record app)) {height : ℕ} {blockTxs : List Tx}
    (hupdated : mem.update check app height blockTxs = .ok (after, later)) :
    after.listed.Sublist (record later) ∧ after.futuretxs.Sublist mem.futuretxs := by
  have hfiltered : ({ mem with height := height }.filterTxsNoResult blockTxs).listed.Sublist
      (record app) := (List.filter_sublist.map _).trans hsublist
  cases update_cases hupdated with
  | inl hafter =>
    rw [hafter.2.1, hafter.2.2]
    exact ⟨hfiltered, List.Sublist.refl _⟩
  | inr hrechecked =>
    obtain ⟨-, checked, kept, hrechecked, hafter⟩ := hrechecked
    obtain ⟨hlisted, hkept⟩ := sublist_recheckFutureTxs hrecords hfiltered hrechecked
    rw [hafter]
    exact ⟨hlisted, hkept⟩

theorem futuretxs_checkTx {tx : Tx} {connFails : Bool}
    (hchecked : mem.checkTx check app tx connFails = .ok (after, later)) :
    ∀ memTx ∈ after.futuretxs, memTx ∈ mem.futuretxs ∨ memTx.tx = tx := by
  intro memTx hmem
  cases checkTx_cases hchecked with
  | inl huntouched => exact .inl (huntouched.2.1 ▸ hmem)
  | inr hanswered =>
    obtain ⟨code, -, hafter⟩ := hanswered
    rw [hafter] at hmem
    unfold Mempool.resCbNormal at hmem
    split_ifs at hmem
    · exact .inl hmem
    · cases List.mem_append.mp hmem with
      | inl hearlier => exact .inl hearlier
      | inr hlast => exact .inr (congrArg MempoolTx.tx (List.mem_singleton.mp hlast))
    · exact .inl hmem

end Order

end LkChain.Tendermint.Mempools
