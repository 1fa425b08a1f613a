import LkChain.TxPool.Nonces

/-!
# Pending balances

The pending balance of an account never exceeds its balance: a promotion lowers it, a removal leaves
it as it is, and a reset counts it anew. What the pending balance pays for, the state pays for as
well.
-/

namespace LkChain.TxPool

open Foundation Lanes Schedules Ethereum State Transactions

namespace Pool

/-- The pending nonces are in step with the state, and the state pays for whatever the pending
balances pay for. -/
structure Prompt (setup : Setup) (pool : Pool) : Prop extends Sequenced setup pool where
  funded : ∀ addr, pool.pendingState.getBalance addr ≤ pool.currentState.getBalance addr

variable {setup : Setup} {pool after : Pool} {event : Event} {statedb : StateDB}
  {reinject : List Transaction} {removing stranding : Prop}

theorem Moves.prompt (hmoves : Moves setup ⟨NonceBounded, removing, stranding⟩ pool after)
    (hpool : pool.Prompt setup) : after.Prompt setup where
  toSequenced := hmoves.sequenced hpool.toSequenced
  funded addr := by
    rw [hmoves.currentState]
    calc after.pendingState.getBalance addr
      _ ≤ pool.pendingState.getBalance addr := (hmoves.shifts addr).funds_le
      _ ≤ pool.currentState.getBalance addr := hpool.funded addr

theorem prompt_renewed (call : Call) (gasLimit : ℕ) (hpool : pool.Sequenced setup)
    (hcontinues : pool.Continues setup reinject statedb) :
    (pool.renewed setup call reinject statedb gasLimit).Prompt setup where
  toSequenced := sequenced_renewed call gasLimit hpool hcontinues
  funded addr := by
    have hfunds : (pool.renewed setup call reinject statedb gasLimit).pendingState.getBalance addr =
        statedb.getBalance addr - ((pool.keptOn statedb addr).map Transaction.cost).sum :=
      congrArg Holding.funds (holding_renewed call gasLimit hpool hcontinues addr)
    have hbalance :
      (pool.renewed setup call reinject statedb gasLimit).currentState.getBalance addr =
        statedb.getBalance addr := by
      rw [StateDB.getBalance, view_renewed setup call reinject statedb gasLimit hpool.sound]
      rfl
    rw [hfunds, hbalance]
    exact Int.sub_le_self _ (Int.natCast_nonneg _)

theorem prompt_step (hpool : pool.Prompt setup) (horderly : pool.Orderly setup event) :
    (step setup pool event).Prompt setup := by
  rcases horderly.moves hpool.sound with hmoves |
    ⟨call, reinject, statedb, gasLimit, hcontinues, hmoves⟩
  · exact hmoves.prompt hpool
  · exact hmoves.prompt (prompt_renewed call gasLimit hpool.toSequenced hcontinues)

theorem prompt_newTxPool (setup : Setup) (statedb : StateDB) (gasLimit : ℕ) :
    (newTxPool setup statedb gasLimit).Prompt setup where
  toSequenced := sequenced_newTxPool setup statedb gasLimit
  funded _ := le_rfl

/-- An orderly run never grants an account more than the state does. -/
theorem prompt_run (setup : Setup) (statedb : StateDB) (gasLimit : ℕ) {events : List Event}
    (horderly : Throughout (step setup) (Orderly setup) (newTxPool setup statedb gasLimit) events) :
    (run setup (newTxPool setup statedb gasLimit) events).Prompt setup :=
  invariant_throughout (Prompt setup) (fun _ _ ↦ prompt_step)
    (prompt_newTxPool setup statedb gasLimit) horderly

theorem prompt_run_sampleHeads :
    (run (sampleSetup 4) samplePool sampleHeads).Prompt (sampleSetup 4) :=
  prompt_run (sampleSetup 4) (sampleState 0 (10 ^ 17)) 0 orderly_sampleHeads

end Pool

end LkChain.TxPool
