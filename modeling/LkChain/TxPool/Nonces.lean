import LkChain.Foundation.Schedules
import LkChain.TxPool.Resets

/-!
# Pending nonces

The pending nonces of an account follow each other from its nonce in the current state on, and its
pending nonce comes after them. Transactions enter with the pending nonce only, a removed one takes
those behind it along and lowers the pending nonce to its own, and a reset cuts the list at the
nonce of the new state and counts anew.

The assumptions are that nonces stay below the largest one and that those of the state never
decrease. Reinjected transactions were executed on the discarded branch: they are behind the new
state as well then, and the pool refuses them.
-/

namespace LkChain.TxPool

open Foundation Lanes Ethereum State Transactions Schedules

/-- The nonce of a transaction is below the largest one. -/
def NonceBounded (tx : Transaction) : Prop := tx.accountNonce + 1 < 2 ^ 64

instance (tx : Transaction) : Decidable (NonceBounded tx) := Nat.decLt _ _

namespace Pool

/-- The state of a new head goes on from that of the pool. -/
structure Continues (setup : Setup) (pool : Pool) (reinject : List Transaction)
    (statedb : StateDB) : Prop where
  nonces : ∀ addr, pool.currentState.getNonce addr ≤ statedb.getNonce addr
  bounded : ∀ addr, statedb.getNonce addr + 1 < 2 ^ 64
  executed : ∀ tx ∈ reinject, tx.accountNonce < statedb.getNonce (setup.account tx)

/-- An event that keeps to the assumptions on nonces. -/
def Orderly (setup : Setup) (pool : Pool) (event : Event) : Prop :=
  (∀ tx ∈ submitted event, NonceBounded tx) ∧
    ∀ reinject statedb gasLimit, event.op = .reset reinject (some statedb) gasLimit →
      pool.Continues setup reinject statedb

/-- Every account has its pending nonces in step with the current state. -/
structure Sequenced (setup : Setup) (pool : Pool) : Prop where
  sound : pool.Sound setup
  bounded : ∀ addr, (pool.holding setup addr).Admitted NonceBounded
  inStep : ∀ addr, (pool.holding setup addr).InStep Transaction.accountNonce
    (pool.currentState.getNonce addr)

variable {setup : Setup} {pool after : Pool} {event : Event} {addr : Address} {statedb : StateDB}
  {reinject : List Transaction} {removing stranding : Prop}

theorem Moves.sequenced (hmoves : Moves setup ⟨NonceBounded, removing, stranding⟩ pool after)
    (hpool : pool.Sequenced setup) : after.Sequenced setup where
  sound := hmoves.sound hpool.sound
  bounded addr := (hmoves.shifts addr).admitted (hpool.sound addr) (hpool.bounded addr)
  inStep addr := by
    rw [hmoves.currentState]
    exact (hmoves.shifts addr).inStep (fun _ h ↦ h) (hpool.sound addr) (hpool.bounded addr)
      (hpool.inStep addr)

/-! ## Resets -/

/-- The pending transactions that an account keeps on a new state. -/
def keptOn (statedb : StateDB) (pool : Pool) (addr : Address) : List Transaction :=
  ((pool.pendingOf addr).demotion (statedb.getNonce addr) (statedb.getBalance addr)).1.txs

theorem reinjected_of_continues (call : Call) (gasLimit : ℕ)
    (hcontinues : pool.Continues setup reinject statedb) :
    pool.reinjected setup call reinject statedb gasLimit = pool.rebase statedb gasLimit :=
  addTxs_of_behind setup call false hcontinues.executed

theorem keptOn_nonces (hpool : pool.Sequenced setup)
    (hcontinues : pool.Continues setup reinject statedb) (addr : Address) :
    (pool.keptOn statedb addr).map Transaction.accountNonce =
      List.range' (statedb.getNonce addr) (pool.keptOn statedb addr).length :=
  TxList.demotion_nonces _ (hpool.inStep addr).numbers (hcontinues.nonces addr)

theorem keptOn_bounded (hpool : pool.Sequenced setup) :
    ∀ tx ∈ pool.keptOn statedb addr, NonceBounded tx := fun tx htx ↦
  hpool.bounded addr tx (.inl ((TxList.demotion_spec _ _ _).sublist.subset htx))

/-- Before queued transactions are promoted again, an account has its cut lists, and its pending
nonce and balance are those of the new state after the transactions that it keeps. -/
theorem holding_renewed (call : Call) (gasLimit : ℕ) (hpool : pool.Sequenced setup)
    (hcontinues : pool.Continues setup reinject statedb) (addr : Address) :
    (pool.renewed setup call reinject statedb gasLimit).holding setup addr =
      ((pool.rebase statedb gasLimit).demotedHolding setup addr).restart
        (statedb.getNonce addr + (pool.keptOn statedb addr).length)
        (statedb.getBalance addr - ((pool.keptOn statedb addr).map Transaction.cost).sum) := by
  set rebased := pool.rebase statedb gasLimit with hrebased
  obtain ⟨hsettings, hdemoted⟩ :=
    demoteUnexecutables_spec call (sound_rebase setup statedb gasLimit hpool.sound)
  set demoted := rebased.demoteUnexecutables setup call with hdemotedPool
  have hrenewed : pool.renewed setup call reinject statedb gasLimit =
    demoted.updateAccounts call := by
    rw [renewed, reinjected_of_continues call gasLimit hcontinues]
  have hstate : demoted.currentState = statedb := currentState_of_settings hsettings
  have hkept : (demoted.pendingOf addr).txs = pool.keptOn statedb addr :=
    congrArg Holding.ready (hdemoted addr)
  have hnonces := keptOn_nonces hpool hcontinues addr
  rw [hrenewed, (updateAccounts_spec setup call demoted).2]
  split_ifs with hkey
  · have hlow : ∀ tx ∈ pool.keptOn statedb addr, statedb.getNonce addr ≤ tx.accountNonce := by
      intro tx htx
      have hmem : tx.accountNonce ∈ (pool.keptOn statedb addr).map Transaction.accountNonce :=
        List.mem_map_of_mem htx
      rw [hnonces] at hmem
      exact (List.mem_range'_1.mp hmem).1
    unfold countedHolding
    dsimp only
    rw [hstate, hkept, hdemoted, latest_snd _ hlow, latest_fst _ hnonces
      (Nat.lt_of_succ_lt (hcontinues.bounded addr)) (keptOn_bounded hpool)]
  · have hnil : pool.keptOn statedb addr = [] := by
      rw [← hkept, pendingOf_of_not_mem hkey]
      rfl
    rw [hdemoted, hnil]
    ext1
    · rfl
    · rfl
    · rfl
    · rfl
    · exact (Int.sub_zero _).symm

theorem sequenced_renewed (call : Call) (gasLimit : ℕ) (hpool : pool.Sequenced setup)
    (hcontinues : pool.Continues setup reinject statedb) :
    (pool.renewed setup call reinject statedb gasLimit).Sequenced setup where
  sound := sound_renewed setup call reinject statedb gasLimit hpool.sound
  bounded addr := by
    have hdemoted := TxList.demotion_spec (pool.pendingOf addr) (statedb.getNonce addr)
      (statedb.getBalance addr)
    rw [holding_renewed call gasLimit hpool hcontinues]
    exact Holding.Admitted.demote (hpool.bounded addr)
      (sound_rebase setup statedb gasLimit hpool.sound addr) hdemoted.sublist hdemoted.mem_demoted
      hdemoted.distinct
  inStep addr := by
    have hstate : (pool.renewed setup call reinject statedb gasLimit).currentState.getNonce addr =
        statedb.getNonce addr := by
      rw [StateDB.getNonce, view_renewed setup call reinject statedb gasLimit hpool.sound]
      rfl
    rw [hstate, holding_renewed call gasLimit hpool hcontinues]
    exact ⟨keptOn_nonces hpool hcontinues addr, rfl⟩

/-! ## Steps and runs -/

/-- An orderly step shifts the lanes of the pool, or those that a reset has cut to a new state. -/
theorem Orderly.moves (horderly : pool.Orderly setup event) (hsound : pool.Sound setup) :
    Moves setup ⟨NonceBounded, True, True⟩ pool (step setup pool event) ∨
      ∃ call reinject statedb gasLimit, pool.Continues setup reinject statedb ∧
        Moves setup ⟨NonceBounded, True, True⟩ (pool.renewed setup call reinject statedb gasLimit)
          (step setup pool event) := by
  by_cases hreset : ∃ reinject statedb gasLimit, event.op = .reset reinject (some statedb) gasLimit
  · obtain ⟨call, op⟩ := event
    obtain ⟨reinject, statedb, gasLimit, rfl⟩ := hreset
    exact .inr ⟨call, reinject, statedb, gasLimit, horderly.2 _ _ _ rfl, promoteExecutables_refines
      (fun _ ↦ trivial) (sound_renewed setup call reinject statedb gasLimit hsound)⟩
  · push Not at hreset
    exact .inl (step_refines horderly.1 (fun _ ↦ trivial) (fun _ ↦ trivial) hreset hsound)

theorem sequenced_step (hpool : pool.Sequenced setup) (horderly : pool.Orderly setup event) :
    (step setup pool event).Sequenced setup := by
  rcases horderly.moves hpool.sound with hmoves |
    ⟨call, reinject, statedb, gasLimit, hcontinues, hmoves⟩
  · exact hmoves.sequenced hpool
  · exact hmoves.sequenced (sequenced_renewed call gasLimit hpool hcontinues)

theorem sequenced_newTxPool (setup : Setup) (statedb : StateDB) (gasLimit : ℕ) :
    (newTxPool setup statedb gasLimit).Sequenced setup where
  sound := sound_newTxPool setup statedb gasLimit
  bounded _ _ h := absurd h (by rintro (h | h) <;> exact List.not_mem_nil h)
  inStep _ := ⟨rfl, rfl⟩

/-- After every run of orderly events, the pending nonces of an account follow each other from its
nonce in the current state on, and its pending nonce is the one after them. -/
theorem pending_nonces_run (setup : Setup) (statedb : StateDB) (gasLimit : ℕ) (events : List Event)
    (addr : Address)
    (horderly : Throughout (step setup) (Orderly setup) (newTxPool setup statedb gasLimit) events) :
    ((run setup (newTxPool setup statedb gasLimit) events).pendingOf addr).txs.map
        Transaction.accountNonce =
        List.range'
          ((run setup (newTxPool setup statedb gasLimit) events).currentState.getNonce addr)
          ((run setup (newTxPool setup statedb gasLimit) events).pendingOf addr).len ∧
      (run setup (newTxPool setup statedb gasLimit) events).pendingState.getNonce addr =
        (run setup (newTxPool setup statedb gasLimit) events).currentState.getNonce addr +
          ((run setup (newTxPool setup statedb gasLimit) events).pendingOf addr).len := by
  have hrun : (run setup (newTxPool setup statedb gasLimit) events).Sequenced setup :=
    invariant_throughout (Sequenced setup) (fun _ _ ↦ sequenced_step)
      (sequenced_newTxPool setup statedb gasLimit) horderly
  exact ⟨(hrun.inStep addr).numbers, (hrun.inStep addr).next⟩

theorem orderly_addTx {call : Call} {tx : Transaction} {isLocal : Bool} (hnonce : NonceBounded tx) :
    pool.Orderly setup ⟨call, .addTx tx isLocal⟩ :=
  ⟨fun _ htx ↦ List.mem_singleton.mp htx ▸ hnonce, fun _ _ _ h ↦ (by cases h)⟩

theorem continues_sampleState {balance : ℤ} (hstate : pool.currentState = sampleState 0 balance)
    (hexecuted : ∀ tx ∈ reinject,
      tx.accountNonce < (sampleState 1 balance).getNonce (setup.account tx)) :
    pool.Continues setup reinject (sampleState 1 balance) where
  nonces addr := by
    rw [hstate, getNonce_sampleState, getNonce_sampleState]
    split_ifs
    · exact Nat.zero_le 1
    · exact le_rfl
  bounded addr := by
    rw [getNonce_sampleState]
    split_ifs <;> decide
  executed := hexecuted

/-- Three transactions are added, the last one is removed, and a new head executes the first one. -/
def sampleHeads : List Event :=
  [⟨sampleCall, .addTx (sampleTx 7 0) false⟩, ⟨sampleCall, .addTx (sampleTx 7 1) false⟩,
    ⟨sampleCall, .addTx (sampleTx 7 2) false⟩, ⟨sampleCall, .removeTx (sampleTx 7 2)⟩,
    ⟨sampleCall, .reset [sampleTx 7 0] (some (sampleState 1 (10 ^ 17))) 0⟩]

theorem orderly_sampleHeads :
    Throughout (step (sampleSetup 4)) (Orderly (sampleSetup 4)) samplePool sampleHeads := by
  refine ⟨orderly_addTx (by decide), orderly_addTx (by decide), orderly_addTx (by decide),
    ⟨fun _ h ↦ absurd h List.not_mem_nil, fun _ _ _ h ↦ (by cases h)⟩,
    ⟨fun _ h ↦ absurd h List.not_mem_nil, ?_⟩, trivial⟩
  rintro _ _ _ ⟨⟩
  exact continues_sampleState rfl (by decide)

theorem pending_nonces_run_sampleHeads :
    ((run (sampleSetup 4) samplePool sampleHeads).pendingOf 7).txs = [sampleTx 7 1] ∧
      (run (sampleSetup 4) samplePool sampleHeads).pendingState.getNonce 7 =
        (run (sampleSetup 4) samplePool sampleHeads).currentState.getNonce 7 + 1 :=
  ⟨by decide, (pending_nonces_run (sampleSetup 4) (sampleState 0 (10 ^ 17)) 0 sampleHeads 7
    orderly_sampleHeads).2⟩

end Pool

end LkChain.TxPool
