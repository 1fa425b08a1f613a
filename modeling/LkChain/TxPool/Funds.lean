import LkChain.TxPool.Index
import LkChain.TxPool.Nonces

/-!
# Pending balances

The pending balance of an account should be what its pending transactions leave of its balance in
the current state. Promotions pay for a transaction, and resets count anew. But a pending
transaction that is removed is not paid back: not by `removeTx`, not by the fairness cap, and not
when a full pool makes room. And a reset looks at the transactions one by one, so that it keeps
pending ones that the new balance pays for singly but not together; the pending balance is negative
then.

While no pending transaction is removed and every new state pays for all that is left, the pending
balance is right and never negative.
-/

namespace LkChain.TxPool

open Foundation Lanes Ethereum State Transactions Schedules

namespace Pool

/-- The state pays for all transactions of every account that it has not executed. -/
def PaysFor (pool : Pool) (statedb : StateDB) : Prop :=
  ∀ addr, (((((pool.pendingOf addr).txs ++ (pool.queueOf addr).txs).filter
    (statedb.getNonce addr ≤ ·.accountNonce)).map Transaction.cost).sum : ℤ) ≤
      statedb.getBalance addr

/-- An orderly event that removes nothing and whose new state pays for what is left. -/
structure Undisturbed (setup : Setup) (pool : Pool) (event : Event) : Prop where
  orderly : pool.Orderly setup event
  keeps : ¬pool.Removes setup event
  pays : ∀ reinject statedb gasLimit, event.op = .reset reinject (some statedb) gasLimit →
    pool.PaysFor statedb

/-- The pending balances are right, and suffice for what is promoted next. -/
structure Affordable (setup : Setup) (pool : Pool) : Prop extends Sequenced setup pool where
  settled : ∀ addr, (pool.holding setup addr).Settled Transaction.cost
    (pool.currentState.getBalance addr)
  covered : ∀ addr, (pool.holding setup addr).Covered Transaction.accountNonce Transaction.cost

variable {setup : Setup} {call : Call} {pool after : Pool} {event : Event} {addr : Address}
  {statedb : StateDB} {tx : Transaction} {txs reinject : List Transaction} {isLocal : Bool}
  {removing stranding : Prop} {admitted : Transaction → Prop}

theorem Moves.settled (hmoves : Moves setup ⟨NonceBounded, removing, stranding⟩ pool after)
    (hremoving : ¬removing) (hpool : pool.Affordable setup) (addr : Address) :
    (after.holding setup addr).Settled Transaction.cost (after.currentState.getBalance addr) := by
  rw [hmoves.currentState]
  exact (hmoves.shifts addr).settled hremoving (fun _ h ↦ h) (hpool.sound addr) (hpool.bounded addr)
    (hpool.inStep addr) (hpool.settled addr)

theorem Moves.affordable (hmoves : Moves setup ⟨fun _ ↦ False, False, stranding⟩ pool after)
    (hpool : pool.Affordable setup) : after.Affordable setup := by
  have hwider : Moves setup ⟨NonceBounded, False, stranding⟩ pool after :=
    ⟨hmoves.currentState, fun addr ↦ (hmoves.shifts addr).mono rfl (fun _ h ↦ h.elim) id id⟩
  exact ⟨hwider.sequenced hpool.toSequenced, hwider.settled id hpool, fun addr ↦
    (hmoves.shifts addr).covered (fun _ ↦ id) id (fun _ h ↦ h) (hpool.sound addr)
      (hpool.bounded addr) (hpool.inStep addr) (hpool.covered addr)⟩

/-! ## Adding transactions -/

theorem covered_place (hpool : pool.Affordable setup)
    (hnonce : tx.accountNonce = pool.pendingState.getNonce (setup.account tx))
    (hcost : (tx.cost : ℤ) ≤ pool.pendingState.getBalance (setup.account tx)) (addr : Address) :
    ((pool.place setup tx isLocal).1.holding setup addr).Covered Transaction.accountNonce
      Transaction.cost := by
  rcases place_cases setup pool tx isLocal with hrefused | ⟨hoverlaps, -, -⟩ |
    ⟨-, queued, henqueued, hplace⟩
  · rw [hrefused]
    exact hpool.covered addr
  · -- no pending transaction has the pending nonce
    have hbefore :=
      (hpool.inStep (setup.account tx)).mem_number.mp (TxList.overlaps_iff.mp hoverlaps)
    exact absurd hnonce hbefore.2.ne
  · rw [hplace, congrFun (markLocal_rest queued _ isLocal).2, henqueued.holding hpool.sound]
    split_ifs with hsame
    · subst hsame
      exact (hpool.covered _).enqueue hnonce hcost
    · exact hpool.covered addr

theorem affordable_add (hpool : pool.Affordable setup) (hroom : pool.isFull setup = false)
    (hbounded : NonceBounded tx) : (pool.add setup call tx isLocal).1.Affordable setup := by
  have hmoves : Moves setup ⟨NonceBounded, False, True⟩ pool (pool.add setup call tx isLocal).1 :=
    add_refines hbounded (Bool.eq_false_iff.mp hroom) (fun _ ↦ trivial) hpool.sound
  refine ⟨hmoves.sequenced hpool.toSequenced, hmoves.settled id hpool, fun addr ↦ ?_⟩
  rcases add_of_not_full call tx isLocal hroom with ⟨priced, error, hadd⟩ | ⟨hvalid, hadd⟩
  · rw [hadd]
    exact hpool.covered addr
  · rw [hadd]
    exact covered_place hpool (validateTx_ok hvalid).1 (validateTx_ok hvalid).2 addr

theorem affordable_addAll (hpool : pool.Affordable setup)
    (hroom : ¬FillsUp setup call isLocal txs pool) (hbounded : ∀ tx ∈ txs, NonceBounded tx) :
    (addAll setup call isLocal txs pool).1.Affordable setup := by
  induction txs generalizing pool with
  | nil => exact hpool
  | cons tx txs ih =>
    rw [addAll_cons]
    have hadd : (pool.add setup call tx isLocal).1.Affordable setup :=
      affordable_add hpool (Bool.eq_false_iff.mpr fun h ↦ hroom (.inl h))
        (hbounded tx (List.mem_cons_self ..))
    exact ih hadd (fun h ↦ hroom (.inr h)) fun other hother ↦
      hbounded other (List.mem_cons_of_mem tx hother)

theorem affordable_promoteExecutables {accounts : Option (List Address)}
    (hpool : pool.Affordable setup) (hroom : ¬pool.Overflows setup call accounts) :
    (pool.promoteExecutables setup call accounts).Affordable setup := by
  have hmoves : Moves setup ⟨fun _ ↦ False, False, True⟩ pool
      (pool.promoteExecutables setup call accounts) :=
    promoteExecutables_refines hroom hpool.sound
  exact hmoves.affordable hpool

theorem affordable_addTx (hpool : pool.Affordable setup) (hbounded : NonceBounded tx)
    (hroom : ¬(pool.isFull setup = true ∨
      (pool.add setup call tx isLocal).1.Overflows setup call (some [setup.account tx]))) :
    (pool.addTx setup call tx isLocal).1.Affordable setup := by
  have hadd : (pool.add setup call tx isLocal).1.Affordable setup :=
    affordable_add hpool (Bool.eq_false_iff.mpr fun h ↦ hroom (.inl h)) hbounded
  rcases addTx_pool setup call pool tx isLocal with hafter | hafter
  · rw [hafter]
    exact hadd
  · rw [hafter]
    exact affordable_promoteExecutables hadd fun h ↦ hroom (.inr h)

theorem affordable_addTxs (hpool : pool.Affordable setup) (hbounded : ∀ tx ∈ txs, NonceBounded tx)
    (hroom : ¬(FillsUp setup call isLocal txs pool ∨
      (addAll setup call isLocal txs pool).1.Overflows setup call
        (some (call.order 3 (addAll setup call isLocal txs pool).2.2)))) :
    (pool.addTxs setup call txs isLocal).1.Affordable setup := by
  have hadd : (addAll setup call isLocal txs pool).1.Affordable setup :=
    affordable_addAll hpool (fun h ↦ hroom (.inl h)) hbounded
  rcases addTxs_pool setup call pool txs isLocal with hafter | hafter
  · rw [hafter]
    exact hadd
  · rw [hafter]
    exact affordable_promoteExecutables hadd fun h ↦ hroom (.inr h)

/-! ## Resets -/

/-- A state that pays for everything keeps the pending transactions that it has not executed, and
demotes none. -/
theorem keptOn_of_paysFor (hpool : pool.Sequenced setup)
    (hcontinues : pool.Continues setup reinject statedb) (hpays : pool.PaysFor statedb)
    (addr : Address) :
    pool.keptOn statedb addr =
        (pool.pendingOf addr).txs.filter (statedb.getNonce addr ≤ ·.accountNonce) ∧
      ((pool.pendingOf addr).demotion (statedb.getNonce addr) (statedb.getBalance addr)).2.2 =
        [] := by
  apply TxList.demotion_of_payable (hpool.inStep addr).numbers (hcontinues.nonces addr)
  intro tx htx hlow
  refine le_trans ?_ (hpays addr)
  have hmem : tx ∈ ((pool.pendingOf addr).txs ++ (pool.queueOf addr).txs).filter
      (statedb.getNonce addr ≤ ·.accountNonce) :=
    List.mem_filter.mpr ⟨List.mem_append_left _ htx, decide_eq_true hlow⟩
  exact Int.ofNat_le.mpr (List.single_le_sum (fun _ _ ↦ Nat.zero_le _) _ (List.mem_map_of_mem hmem))

theorem next_le_of_paysFor (hpool : pool.Sequenced setup)
    (hcontinues : pool.Continues setup reinject statedb) (hpays : pool.PaysFor statedb)
    (addr : Address) :
    (pool.holding setup addr).next ≤ statedb.getNonce addr + (pool.keptOn statedb addr).length := by
  by_contra hlt
  push Not at hlt
  -- else a pending transaction of that nonce would have been kept
  obtain ⟨tx, htx, hnonce⟩ := (hpool.inStep addr).mem_number.mpr
    ⟨(hcontinues.nonces addr).trans (Nat.le_add_right _ _), hlt⟩
  have hkept : tx ∈ pool.keptOn statedb addr := by
    rw [(keptOn_of_paysFor hpool hcontinues hpays addr).1]
    exact List.mem_filter.mpr ⟨htx, decide_eq_true (hnonce ▸ Nat.le_add_right _ _)⟩
  have hmem : tx.accountNonce ∈ (pool.keptOn statedb addr).map Transaction.accountNonce :=
    List.mem_map_of_mem hkept
  rw [keptOn_nonces hpool hcontinues, List.mem_range'_1] at hmem
  exact absurd hnonce hmem.2.ne

/-- The new state pays for what is kept, and for a queued transaction on top of it. -/
theorem cost_keptOn_le (hpool : pool.Sequenced setup)
    (hcontinues : pool.Continues setup reinject statedb) (hpays : pool.PaysFor statedb)
    (addr : Address) :
    (((pool.keptOn statedb addr).map Transaction.cost).sum : ℤ) ≤ statedb.getBalance addr ∧
      ∀ tx ∈ (pool.queueOf addr).txs, statedb.getNonce addr ≤ tx.accountNonce →
        (tx.cost : ℤ) ≤ statedb.getBalance addr -
          ((pool.keptOn statedb addr).map Transaction.cost).sum := by
  have hbalance := hpays addr
  rw [List.filter_append, ← (keptOn_of_paysFor hpool hcontinues hpays addr).1, List.map_append,
    List.sum_append, Int.natCast_add] at hbalance
  refine ⟨by omega, fun tx htx hlow ↦ ?_⟩
  have hmem : tx ∈ (pool.queueOf addr).txs.filter (statedb.getNonce addr ≤ ·.accountNonce) :=
    List.mem_filter.mpr ⟨htx, decide_eq_true hlow⟩
  have hsingle := List.single_le_sum (fun _ _ ↦ Nat.zero_le _) _
    (List.mem_map_of_mem (f := Transaction.cost) hmem)
  omega

theorem affordable_renewed (call : Call) (gasLimit : ℕ) (hpool : pool.Affordable setup)
    (hcontinues : pool.Continues setup reinject statedb) (hpays : pool.PaysFor statedb) :
    (pool.renewed setup call reinject statedb gasLimit).Affordable setup := by
  have hview := view_renewed setup call reinject statedb gasLimit hpool.sound
  refine ⟨sequenced_renewed call gasLimit hpool.toSequenced hcontinues, fun addr ↦ ?_,
    fun addr ↦ ?_⟩
  · rw [StateDB.getBalance, hview, holding_renewed call gasLimit hpool.toSequenced hcontinues]
    rfl
  · obtain ⟨hfunds, hdue⟩ := cost_keptOn_le hpool.toSequenced hcontinues hpays addr
    have hnext := next_le_of_paysFor hpool.toSequenced hcontinues hpays addr
    have hwaiting : ((pool.rebase statedb gasLimit).demotedHolding setup addr).waiting =
        (pool.queueOf addr).txs := by
      show putAll Transaction.accountNonce ((pool.pendingOf addr).demotion (statedb.getNonce addr)
        (statedb.getBalance addr)).2.2 (pool.queueOf addr).txs = _
      rw [(keptOn_of_paysFor hpool.toSequenced hcontinues hpays addr).2]
      rfl
    rw [holding_renewed call gasLimit hpool.toSequenced hcontinues]
    constructor
    · exact Int.sub_nonneg_of_le hfunds
    · intro tx htx
      have hqueued : tx ∈ (pool.queueOf addr).txs := hwaiting ▸ htx
      exact ((hpool.covered addr).early tx hqueued).trans hnext
    · intro tx htx hturn
      exact hdue tx (hwaiting ▸ htx) (hturn ▸ Nat.le_add_right _ _)

/-! ## Steps and runs -/

theorem affordable_step (hpool : pool.Affordable setup)
    (hundisturbed : pool.Undisturbed setup event) :
    (step setup pool event).Affordable setup := by
  have hquiet (hnone : submitted event = [])
      (hreset : ∀ reinject statedb gasLimit, event.op ≠ .reset reinject (some statedb) gasLimit) :
      (step setup pool event).Affordable setup := by
    have hmoves : Moves setup ⟨fun _ ↦ False, False, True⟩ pool (step setup pool event) :=
      step_refines (fun tx htx ↦ by rw [hnone] at htx; exact List.not_mem_nil htx)
        hundisturbed.keeps (fun _ ↦ trivial) hreset hpool.sound
    exact hmoves.affordable hpool
  obtain ⟨call, op⟩ := event
  cases op with
  | addTx tx isLocal =>
    exact affordable_addTx hpool (hundisturbed.orderly.1 tx (List.mem_singleton_self tx))
      hundisturbed.keeps
  | addTxs txs isLocal =>
    exact affordable_addTxs hpool hundisturbed.orderly.1 hundisturbed.keeps
  | reset reinject statedb gasLimit =>
    cases statedb with
    | none => exact hpool
    | some statedb =>
      exact affordable_promoteExecutables (affordable_renewed call gasLimit hpool
        (hundisturbed.orderly.2 _ _ _ rfl) (hundisturbed.pays _ _ _ rfl)) hundisturbed.keeps
  | removeTx tx => exact hquiet rfl fun _ _ _ h ↦ (by cases h)
  | setGasPrice price => exact hquiet rfl fun _ _ _ h ↦ (by cases h)
  | promoteExecutables accounts => exact hquiet rfl fun _ _ _ h ↦ (by cases h)
  | evict => exact hquiet rfl fun _ _ _ h ↦ (by cases h)
  | homestead => exact hquiet rfl fun _ _ _ h ↦ (by cases h)

/-- After every run of undisturbed events, the pending balance of an account is what its pending
transactions leave of its balance, and not negative: they are affordable together. -/
theorem pending_balance_run (setup : Setup) (statedb : StateDB) (gasLimit : ℕ) (events : List Event)
    (addr : Address) (hbalances : ∀ addr, 0 ≤ statedb.getBalance addr)
    (hundisturbed : Throughout (step setup) (Undisturbed setup) (newTxPool setup statedb gasLimit)
      events) :
    (run setup (newTxPool setup statedb gasLimit) events).pendingState.getBalance addr =
        (run setup (newTxPool setup statedb gasLimit) events).currentState.getBalance addr -
          (((run setup (newTxPool setup statedb gasLimit) events).pendingOf addr).txs.map
            Transaction.cost).sum ∧
      0 ≤ (run setup (newTxPool setup statedb gasLimit) events).pendingState.getBalance addr ∧
      ((((run setup (newTxPool setup statedb gasLimit) events).pendingOf addr).txs.map
        Transaction.cost).sum : ℤ) ≤
        (run setup (newTxPool setup statedb gasLimit) events).currentState.getBalance addr := by
  have hinitial : (newTxPool setup statedb gasLimit).Affordable setup :=
    ⟨sequenced_newTxPool setup statedb gasLimit, fun addr ↦ (Int.sub_zero _).symm, fun addr ↦
      ⟨hbalances addr, fun _ h ↦ absurd h List.not_mem_nil, fun _ h ↦ absurd h List.not_mem_nil⟩⟩
  have hrun : (run setup (newTxPool setup statedb gasLimit) events).Affordable setup :=
    invariant_throughout (Affordable setup) (fun _ _ ↦ affordable_step) hinitial hundisturbed
  have hsettled : _ = _ := hrun.settled addr
  have hfunds := (hrun.covered addr).funds
  exact ⟨hsettled, hfunds, Int.sub_nonneg.mp (hsettled ▸ hfunds)⟩

/-- Two transactions of one account are added, and a new head executes the first one. -/
def sampleExecution (balance : ℤ) : List Event :=
  [⟨sampleCall, .addTx (sampleTx 7 0) false⟩, ⟨sampleCall, .addTx (sampleTx 7 1) false⟩,
    ⟨sampleCall, .addTx (sampleTx 7 2) false⟩,
    ⟨sampleCall, .reset [] (some (sampleState 1 balance)) 0⟩]

theorem getBalance_sampleState_nonneg (nonce : ℕ) (addr : Address) :
    0 ≤ (sampleState nonce (10 ^ 17)).getBalance addr := by
  rw [getBalance_sampleState]
  split_ifs <;> decide

theorem paysFor_sampleExecution :
    (run (sampleSetup 4) samplePool ((sampleExecution (10 ^ 17)).take 3)).PaysFor
      (sampleState 1 (10 ^ 17)) := by
  intro addr
  by_cases hsame : addr = 7
  · subst hsame
    decide
  · have hpending : (run (sampleSetup 4) samplePool ((sampleExecution (10 ^ 17)).take 3)).pendingOf
        addr = .new true := by
      apply pendingOf_of_not_mem
      show addr ∉ [7]
      simpa using hsame
    have hqueue : (run (sampleSetup 4) samplePool ((sampleExecution (10 ^ 17)).take 3)).queueOf
        addr = .new false := rfl
    rw [hpending, hqueue]
    exact getBalance_sampleState_nonneg 1 addr

theorem pending_balance_run_sampleExecution :
    ((run (sampleSetup 4) samplePool (sampleExecution (10 ^ 17))).pendingOf 7).txs =
        [sampleTx 7 1, sampleTx 7 2] ∧
      (run (sampleSetup 4) samplePool (sampleExecution (10 ^ 17))).pendingState.getBalance 7 =
        (run (sampleSetup 4) samplePool (sampleExecution (10 ^ 17))).currentState.getBalance 7 -
          (((run (sampleSetup 4) samplePool (sampleExecution (10 ^ 17))).pendingOf 7).txs.map
            Transaction.cost).sum := by
  refine ⟨by decide, (pending_balance_run (sampleSetup 4) (sampleState 0 (10 ^ 17)) 0
    (sampleExecution (10 ^ 17)) 7 (getBalance_sampleState_nonneg 0)
    ⟨⟨orderly_addTx (by decide), ?_, ?_⟩, ⟨orderly_addTx (by decide), ?_, ?_⟩,
      ⟨orderly_addTx (by decide), ?_, ?_⟩,
      ⟨⟨fun _ h ↦ absurd h List.not_mem_nil, ?_⟩, ?_, ?_⟩, trivial⟩).1⟩
  · show ¬(_ ∨ _ < _)
    decide
  · exact fun _ _ _ h ↦ (by cases h)
  · show ¬(_ ∨ _ < _)
    decide
  · exact fun _ _ _ h ↦ (by cases h)
  · show ¬(_ ∨ _ < _)
    decide
  · exact fun _ _ _ h ↦ (by cases h)
  · rintro _ _ _ ⟨⟩
    exact continues_sampleState rfl fun _ h ↦ absurd h List.not_mem_nil
  · show ¬(_ < _)
    decide
  · rintro _ _ _ ⟨⟩
    exact paysFor_sampleExecution

/-- Nothing is paid back for a removed transaction, and the pending balance is negative once a new
state pays for the pending transactions one by one but not together. -/
theorem pending_balance_wrong :
    (run (sampleSetup 4) samplePool (sampleRemoval 1)).pendingState.getBalance 7 ≠
        (run (sampleSetup 4) samplePool (sampleRemoval 1)).currentState.getBalance 7 -
          (((run (sampleSetup 4) samplePool (sampleRemoval 1)).pendingOf 7).txs.map
            Transaction.cost).sum ∧
      (run (sampleSetup 4) samplePool
        (sampleExecution (15 * 10 ^ 15))).pendingState.getBalance 7 = -(5 * 10 ^ 15) := by
  decide

end Pool

end LkChain.TxPool
