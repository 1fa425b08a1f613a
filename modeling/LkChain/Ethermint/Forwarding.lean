import LkChain.Ethereum.Transition
import LkChain.Foundation.Schedules
import Mathlib.Data.List.Infix

/-!
# Forwarding of local transactions

`ethereum/txs.go`: the transactions that the local pool has accepted are broadcast to tendermint,
one by one as the pool announces them and in batches after every block. A map keeps for every sender
the nonce behind the last one that was broadcast, a set keeps the hashes, and the state is read
again when the chain has grown. A block deletes the hashes of its transactions.

An answer that the transaction already exists in the cache of tendermint counts as a broadcast. The
order in which the nonces of a sender are broadcast rests on the map of nonces alone: the set of
hashes only saves calls.
-/

namespace LkChain.Ethermint.Forwarding

open Foundation
open Ethereum State Transactions
open Transition (Panic)

/-- `Hash` and `From` of transactions. -/
structure Identity where
  hash : Transaction → Hash
  sender : Transaction → Address

/-- What `getNonce` sees of the chain: the number of the current header and, unless it cannot be
opened, the state. -/
structure Chain where
  number : ℕ
  state : Option StateDB

/-- The variables of the package. -/
structure Forwarder where
  nonceMap : Address → ℕ
  txhashMap : Hash → Bool
  blockNum : ℕ
  dbState : Option StateDB

def Forwarder.init : Forwarder := ⟨fun _ ↦ 0, fun _ ↦ false, 0, none⟩

/-- A transaction that was broadcast, and the nonce of its sender in the state that `getNonce` read
for its batch. -/
structure Broadcast where
  tx : Transaction
  committed : ℕ

/-- The transactions of one sender, each with the answer that `BroadcastTx` has for it, and the
chain at this time. -/
structure Group (identity : Identity) where
  chain : Chain
  addr : Address
  txs : List (Transaction × Option String)
  sender : ∀ entry ∈ txs, identity.sender entry.1 = addr
  nonce : ∀ entry ∈ txs, entry.1.accountNonce < 2 ^ 64 - 1

section Program

variable (identity : Identity)

/-- The state is read when there is none, or when the header is newer. -/
def Forwarder.refresh (forwarder : Forwarder) (chain : Chain) : Forwarder :=
  if forwarder.blockNum < chain.number ∨ forwarder.dbState.isNone then
    { forwarder with blockNum := chain.number, dbState := chain.state }
  else forwarder

/-- `getNonce`, with the nonce of the state. -/
def getNonce (forwarder : Forwarder) (chain : Chain) (addr : Address) :
    Except Panic (Forwarder × ℕ × ℕ) :=
  let forwarder := forwarder.refresh chain
  match forwarder.dbState with
  | none => .error .nilDereference
  | some state =>
    let nonce := state.getNonce addr
    let cacheNonce := forwarder.nonceMap addr
    .ok (forwarder, nonce, if nonce < cacheNonce then cacheNonce else nonce)

/-- The transaction has reached tendermint, now or before. -/
def reached : Option String → Bool
  | none => true
  | some errStr => "Tx already exists in cache".toList <:+: errStr.toList

/-- `setNonce`, and the mark of the hash. -/
def Forwarder.sent (forwarder : Forwarder) (addr : Address) (tx : Transaction) : Forwarder :=
  { forwarder with
    nonceMap := Function.update forwarder.nonceMap addr ((tx.accountNonce + 1) % 2 ^ 64)
    txhashMap := Function.update forwarder.txhashMap (identity.hash tx) true }

/-- The loop of `transformTx` over the transactions of a sender. What is broadcast is put in front
of what was broadcast before. -/
def transformTxs (addr : Address) (committed : ℕ) :
    ℕ → List (Transaction × Option String) → Forwarder × List Broadcast → Forwarder × List Broadcast
  | _, [], done => done
  | nonce, (tx, answer) :: rest, (forwarder, log) =>
    if forwarder.txhashMap (identity.hash tx) then transformTxs addr committed nonce rest
      (forwarder, log)
    else if tx.accountNonce < nonce then transformTxs addr committed nonce rest (forwarder, log)
    else if tx.accountNonce = (nonce + (2 ^ 64 - 1)) % 2 ^ 64 ∨ tx.accountNonce = nonce then
      if reached answer then
        transformTxs addr committed ((tx.accountNonce + 1) % 2 ^ 64) rest
          (forwarder.sent identity addr tx, ⟨tx, committed⟩ :: log)
      else (forwarder, log)
    else (forwarder, log)

/-- One round of `transformTx`. -/
def transformGroup (done : Forwarder × List Broadcast) (group : Group identity) :
    Except Panic (Forwarder × List Broadcast) :=
  if group.txs.isEmpty then .ok done
  else do
    let (forwarder, committed, nonce) ← getNonce done.1 group.chain group.addr
    return transformTxs identity group.addr committed nonce group.txs (forwarder, done.2)

/-- A call of `transformTx`, with one transaction or with the pending ones of all senders, or the
deletion of the hashes of a block. -/
inductive Event (identity : Identity) where
  | transformTx (groups : List (Group identity))
  | newBlock (txs : List Transaction)

/-- A round of `txBroadcastLoop`. -/
def step (done : Forwarder × List Broadcast) :
    Event identity → Except Panic (Forwarder × List Broadcast)
  | .transformTx groups => groups.foldlM (transformGroup identity) done
  | .newBlock txs => .ok ({ done.1 with
      txhashMap := txs.foldl (fun txhashMap tx ↦
        Function.update txhashMap (identity.hash tx) false) done.1.txhashMap }, done.2)

end Program

/-! ## The next nonce of a sender -/

variable {identity : Identity}

/-- One more than the last nonce that was broadcast for a sender. -/
def next (identity : Identity) (addr : Address) (log : List Broadcast) : ℕ :=
  match log.find? fun entry ↦ identity.sender entry.tx = addr with
  | none => 0
  | some entry => entry.tx.accountNonce + 1

/-- Every nonce that was broadcast is the larger one of the committed nonce and the next one. -/
def InOrder (identity : Identity) : List Broadcast → Prop
  | [] => True
  | entry :: earlier =>
    entry.tx.accountNonce = max entry.committed (next identity (identity.sender entry.tx) earlier) ∧
      InOrder identity earlier

/-- The map of nonces is that of the broadcasts, which are in order. -/
structure Filed (identity : Identity) (done : Forwarder × List Broadcast) : Prop where
  nonceMap : ∀ addr, done.1.nonceMap addr = next identity addr done.2
  inOrder : InOrder identity done.2

theorem filed_init : Filed identity (.init, []) := ⟨fun _ ↦ rfl, trivial⟩

section Order

variable {entry : Broadcast} {log later earlier : List Broadcast} {addr : Address}

theorem next_cons_self (entry : Broadcast) (log : List Broadcast) :
    next identity (identity.sender entry.tx) (entry :: log) = entry.tx.accountNonce + 1 := by
  unfold next
  rw [List.find?_cons_of_pos (by simp)]

theorem next_cons_of_ne (hne : identity.sender entry.tx ≠ addr) :
    next identity addr (entry :: log) = next identity addr log := by
  unfold next
  rw [List.find?_cons_of_neg (by simpa using hne)]

theorem InOrder.of_append (horder : InOrder identity (later ++ entry :: earlier)) :
    entry.tx.accountNonce =
      max entry.committed (next identity (identity.sender entry.tx) earlier) := by
  induction later with
  | nil => exact horder.1
  | cons other later ih => exact ih horder.2

theorem InOrder.lt_next (horder : InOrder identity log) (hmem : entry ∈ log) :
    entry.tx.accountNonce < next identity (identity.sender entry.tx) log := by
  induction log with
  | nil => cases hmem
  | cons latest log ih =>
    rcases List.mem_cons.mp hmem with rfl | hmem
    · rw [next_cons_self]
      exact Nat.lt_succ_self _
    · have hold := ih horder.2 hmem
      by_cases hsame : identity.sender latest.tx = identity.sender entry.tx
      · have hlatest := horder.1
        rw [hsame] at hlatest
        rw [← hsame, next_cons_self]
        omega
      · rwa [next_cons_of_ne hsame]

theorem InOrder.pairwise (horder : InOrder identity log) :
    log.Pairwise fun late early ↦ identity.sender late.tx = identity.sender early.tx →
      early.tx.accountNonce < late.tx.accountNonce := by
  induction log with
  | nil => exact .nil
  | cons latest log ih =>
    refine .cons (fun early hearly hsame ↦ ?_) (ih horder.2)
    calc
      early.tx.accountNonce < next identity (identity.sender early.tx) log :=
        horder.2.lt_next hearly
      _ ≤ max latest.committed (next identity (identity.sender early.tx) log) := le_max_right _ _
      _ = latest.tx.accountNonce := by rw [horder.1, hsame]

end Order

/-! ## One round -/

section Rounds

variable {forwarder : Forwarder} {log : List Broadcast} {done after : Forwarder × List Broadcast}
  {addr : Address} {committed nonce : ℕ} {txs : List (Transaction × Option String)}

theorem getNonce_eq_ok {chain : Chain} {refreshed : Forwarder}
    (hnonce : getNonce forwarder chain addr = .ok (refreshed, committed, nonce)) :
    refreshed.nonceMap = forwarder.nonceMap ∧ nonce = max committed (forwarder.nonceMap addr) := by
  have hsame : (forwarder.refresh chain).nonceMap = forwarder.nonceMap := by
    unfold Forwarder.refresh
    split <;> rfl
  unfold getNonce at hnonce
  dsimp only at hnonce
  split at hnonce <;> cases hnonce
  refine ⟨hsame, ?_⟩
  rw [hsame]
  split
  next hlt => exact (max_eq_right hlt.le).symm
  next hge => exact (max_eq_left (not_lt.mp hge)).symm

/-- Only the expected nonce is broadcast: below a nonce that is not zero, none is expected to be
replaced. -/
theorem eq_of_expected {txNonce : ℕ} (hbound : txNonce < 2 ^ 64 - 1) (hge : ¬ txNonce < nonce)
    (hexpected : txNonce = (nonce + (2 ^ 64 - 1)) % 2 ^ 64 ∨ txNonce = nonce) :
    txNonce = nonce := by
  omega

theorem Filed.sent {tx : Transaction} (hfiled : Filed identity (forwarder, log))
    (hsender : identity.sender tx = addr) (hbound : tx.accountNonce < 2 ^ 64 - 1)
    (hnonce : tx.accountNonce = max committed (next identity addr log)) :
    Filed identity (forwarder.sent identity addr tx, ⟨tx, committed⟩ :: log) := by
  subst hsender
  refine ⟨fun other ↦ ?_, hnonce, hfiled.inOrder⟩
  show Function.update forwarder.nonceMap _ _ other = _
  by_cases hother : identity.sender tx = other
  · subst hother
    rw [Function.update_self, Nat.mod_eq_of_lt (by omega)]
    exact (next_cons_self ⟨tx, committed⟩ log).symm
  · rw [Function.update_of_ne (Ne.symm hother), next_cons_of_ne hother]
    exact hfiled.nonceMap other

theorem Filed.transformTxs (hfiled : Filed identity (forwarder, log))
    (hsender : ∀ entry ∈ txs, identity.sender entry.1 = addr)
    (hbound : ∀ entry ∈ txs, entry.1.accountNonce < 2 ^ 64 - 1)
    (hnonce : nonce = max committed (next identity addr log)) :
    Filed identity (transformTxs identity addr committed nonce txs (forwarder, log)) := by
  induction txs generalizing nonce forwarder log with
  | nil => exact hfiled
  | cons entry txs ih =>
    obtain ⟨tx, answer⟩ := entry
    obtain ⟨hown, hsender⟩ := List.forall_mem_cons.mp hsender
    obtain ⟨hsmall, hbound⟩ := List.forall_mem_cons.mp hbound
    dsimp only at hown hsmall
    unfold Forwarding.transformTxs
    split
    next => exact ih hfiled hsender hbound hnonce
    next =>
      split
      next => exact ih hfiled hsender hbound hnonce
      next hge =>
        split
        next hexpected =>
          have hequal := eq_of_expected hsmall hge hexpected
          split
          next =>
            have hsent := hfiled.sent hown hsmall (hequal.trans hnonce)
            refine ih hsent hsender hbound ?_
            rw [← hown, next_cons_self ⟨tx, committed⟩ log, Nat.mod_eq_of_lt (by omega)]
            dsimp only
            omega
          next => exact hfiled
        next => exact hfiled

theorem Filed.transformGroup {group : Group identity} (hfiled : Filed identity done)
    (hgroup : transformGroup identity done group = .ok after) : Filed identity after := by
  unfold Forwarding.transformGroup at hgroup
  split at hgroup
  next =>
    cases hgroup
    exact hfiled
  next =>
    obtain ⟨⟨forwarder, committed, nonce⟩, hread, hreturn⟩ := Results.bind_eq_ok_iff.mp hgroup
    cases hreturn
    obtain ⟨hsame, hnonce⟩ := getNonce_eq_ok hread
    rw [hfiled.nonceMap] at hnonce
    have hrefreshed : Filed identity (forwarder, done.2) := by
      refine ⟨fun addr ↦ ?_, hfiled.inOrder⟩
      rw [hsame]
      exact hfiled.nonceMap addr
    exact hrefreshed.transformTxs group.sender group.nonce hnonce

theorem Filed.step {event : Event identity} (hfiled : Filed identity done)
    (hstep : step identity done event = .ok after) : Filed identity after := by
  cases event with
  | transformTx groups =>
    induction groups generalizing done with
    | nil =>
      cases hstep
      exact hfiled
    | cons group groups ih =>
      obtain ⟨mid, hgroup, hrest⟩ := Results.bind_eq_ok_iff.mp hstep
      exact ih (hfiled.transformGroup hgroup) hrest
  | newBlock txs =>
    cases hstep
    exact ⟨hfiled.nonceMap, hfiled.inOrder⟩

end Rounds

/-! ## All runs -/

/-- Every nonce that is broadcast is the larger one of the nonce that was read from the state and
the one behind the last that was broadcast for the sender. So the nonces of a sender increase, and
no hash is broadcast twice. -/
theorem broadcasts_in_order {events : List (Event identity)} {final : Forwarder × List Broadcast}
    (hrun : Schedules.run (step identity) (.init, []) events = .ok final) :
    (∀ later entry earlier, final.2 = later ++ entry :: earlier → entry.tx.accountNonce =
        max entry.committed (next identity (identity.sender entry.tx) earlier)) ∧
      (final.2.Pairwise fun late early ↦ identity.sender late.tx = identity.sender early.tx →
        early.tx.accountNonce < late.tx.accountNonce) ∧
      ((∀ a ∈ final.2, ∀ b ∈ final.2, identity.hash a.tx = identity.hash b.tx → a.tx = b.tx) →
        (final.2.map fun entry ↦ identity.hash entry.tx).Nodup) := by
  have hfiled : Filed identity final :=
    Schedules.invariant (Filed identity) (fun _ _ _ _ hfiled hstep ↦ hfiled.step hstep) filed_init
      hrun
  refine ⟨?_, hfiled.inOrder.pairwise, ?_⟩
  · intro later entry earlier hsplit
    have horder := hfiled.inOrder
    rw [hsplit] at horder
    exact horder.of_append
  · intro hinjective
    rw [List.Nodup, List.pairwise_map]
    refine hfiled.inOrder.pairwise.imp_of_mem ?_
    intro late early hlate hearly hincreasing hhash
    have hsame := hinjective late hlate early hearly hhash
    have hlt := hincreasing (by rw [hsame])
    rw [hsame] at hlt
    exact lt_irrefl _ hlt

/-- Transactions that are known by their nonces, all of one sender. -/
def sampleIdentity : Identity := ⟨fun tx ↦ BitVec.ofNat 256 tx.accountNonce, fun _ ↦ 1⟩

/-- A transaction with a nonce. -/
def sampleTx (nonce : ℕ) : Transaction := ⟨nonce, 0, 21000, none, 0, [], 27, 1, 1⟩

/-- The transactions of the sender with these nonces, which are all accepted. -/
def sampleGroup (number : ℕ) (nonces : List (Fin 10)) : Group sampleIdentity where
  chain := ⟨number, some (.new fun _ ↦ none)⟩
  addr := 1
  txs := nonces.map fun nonce : Fin 10 ↦ (sampleTx nonce, none)
  sender _ _ := rfl
  nonce entry hmem := by
    obtain ⟨nonce, -, rfl⟩ := List.mem_map.mp hmem
    exact nonce.isLt.trans (by decide)

/-- The nonces 2, 0, 1 and 1 are announced, a block has the transaction 0, and then 0, 1 and 2 are
pending: 0 and 1 are broadcast, and after the block 2. -/
theorem broadcasts_in_order_sample :
    let events : List (Event sampleIdentity) :=
      [.transformTx [sampleGroup 1 [2]], .transformTx [sampleGroup 1 [0]],
        .transformTx [sampleGroup 1 [1]], .transformTx [sampleGroup 1 [1]], .newBlock [sampleTx 0],
        .transformTx [sampleGroup 2 [0, 1, 2]]]
    ∃ final, Schedules.run (step sampleIdentity) (.init, []) events = .ok final ∧
      final.2.map (fun entry ↦ entry.tx.accountNonce) = [2, 1, 0] ∧
      (final.2.map fun entry ↦ sampleIdentity.hash entry.tx).Nodup := by
  intro events
  obtain ⟨final, hrun, hlog⟩ : ∃ final, Schedules.run (step sampleIdentity) (.init, []) events =
      .ok final ∧ final.2 = [⟨sampleTx 2, 0⟩, ⟨sampleTx 1, 0⟩, ⟨sampleTx 0, 0⟩] := ⟨_, rfl, rfl⟩
  obtain ⟨-, -, hnodup⟩ := broadcasts_in_order hrun
  refine ⟨final, hrun, by rw [hlog]; rfl, hnodup ?_⟩
  rw [hlog]
  decide

end LkChain.Ethermint.Forwarding
