import LkChain.Foundation.Schedules
import LkChain.TxPool.Occupancy

/-!
# The index of the pool

Over every run, a listed transaction is in the index, in one list only, under its sender and its
nonce. The converse holds while no removal strands transactions. `removeTx` queues the transactions
behind a pending one that it removes, but only if some are left before it: when the first pending
transaction of an account is removed, those behind it leave the pending list with it and stay in the
index.
-/

namespace LkChain.TxPool

open Foundation Lanes Ethereum State Transactions Schedules

namespace Pool

/-- The two lists of an account. -/
inductive Lane where
  | pending
  | queue
deriving DecidableEq, Repr

/-- The transactions of a list. -/
def lane (pool : Pool) (place : Lane × Address) : List Transaction :=
  match place.1 with
  | .pending => (pool.pendingOf place.2).txs
  | .queue => (pool.queueOf place.2).txs

/-- The index and the lists agree: a transaction is known exactly if it is in one list, which is a
list of its sender where no other transaction has its nonce. No list is empty. -/
structure Consistent (setup : Setup) (pool : Pool) : Prop where
  index : ∀ tx, tx ∈ pool.all ↔ ∃! place, tx ∈ pool.lane place
  sender : ∀ place, ∀ tx ∈ pool.lane place, setup.account tx = place.2
  nonce : ∀ place, Rising Transaction.accountNonce (pool.lane place)
  filled : pool.Filled

variable {setup : Setup} {pool : Pool} {event : Event}

theorem known_of_lane (hsound : pool.Sound setup) {place : Lane × Address} {tx : Transaction}
    (htx : tx ∈ pool.lane place) : tx ∈ pool.all ∧ setup.account tx = place.2 := by
  obtain ⟨lane, addr⟩ := place
  cases lane with
  | pending => exact (hsound addr).ready_known tx htx
  | queue => exact (hsound addr).waiting_known tx htx

theorem place_unique (hsound : pool.Sound setup) {place other : Lane × Address} {tx : Transaction}
    (htx : tx ∈ pool.lane place) (hother : tx ∈ pool.lane other) : other = place := by
  have haddr := (known_of_lane hsound hother).2.symm.trans (known_of_lane hsound htx).2
  obtain ⟨lane, addr⟩ := place
  obtain ⟨lane', addr'⟩ := other
  obtain rfl : addr' = addr := haddr
  cases lane with
  | pending =>
    cases lane' with
    | pending => rfl
    | queue => exact absurd rfl ((hsound addr').apart tx htx tx hother)
  | queue =>
    cases lane' with
    | pending => exact absurd rfl ((hsound addr').apart tx hother tx htx)
    | queue => rfl

theorem consistent_of_sound (hsound : pool.Sound setup)
    (hcomplete : ∀ addr, (pool.holding setup addr).Complete) (hfilled : pool.Filled) :
    pool.Consistent setup where
  index tx := by
    constructor
    · intro hknown
      obtain ⟨place, hplace⟩ : ∃ place, tx ∈ pool.lane place := by
        rcases hcomplete (setup.account tx) tx ⟨hknown, rfl⟩ with hmem | hmem
        · exact ⟨(.pending, setup.account tx), hmem⟩
        · exact ⟨(.queue, setup.account tx), hmem⟩
      exact ⟨place, hplace, fun other hother ↦ place_unique hsound hplace hother⟩
    · rintro ⟨place, hplace, -⟩
      exact (known_of_lane hsound hplace).1
  sender _ _ htx := (known_of_lane hsound htx).2
  nonce place := by
    obtain ⟨lane, addr⟩ := place
    cases lane with
    | pending => exact (hsound addr).ready_rising
    | queue => exact (hsound addr).waiting_rising
  filled := hfilled

/-! ## Steps and runs -/

theorem step_moves (hsound : pool.Sound setup)
    (hreset : ∀ reinject statedb gasLimit, event.op ≠ .reset reinject (some statedb) gasLimit) :
    Moves setup ⟨fun _ ↦ True, True, pool.StrandsOn setup event⟩ pool (step setup pool event) :=
  step_refines (fun _ _ ↦ trivial) (fun _ ↦ trivial) (fun h ↦ h) hreset hsound

theorem promoteExecutables_moves (call : Call) (accounts : Option (List Address))
    (hsound : pool.Sound setup) :
    Moves setup ⟨fun _ ↦ True, True, False⟩ pool (pool.promoteExecutables setup call accounts) :=
  promoteExecutables_refines (fun _ ↦ trivial) hsound

theorem sound_step (hsound : pool.Sound setup) : (step setup pool event).Sound setup := by
  by_cases hreset : ∃ reinject statedb gasLimit, event.op = .reset reinject (some statedb) gasLimit
  · obtain ⟨call, op⟩ := event
    obtain ⟨reinject, statedb, gasLimit, rfl⟩ := hreset
    have hrenewed := sound_renewed setup call reinject statedb gasLimit hsound
    exact (promoteExecutables_moves call.later none hrenewed).sound hrenewed
  · push Not at hreset
    exact (step_moves hsound hreset).sound hsound

theorem complete_step (hsound : pool.Sound setup) (hstrands : ¬pool.StrandsOn setup event)
    (hcomplete : ∀ addr, (pool.holding setup addr).Complete) (addr : Address) :
    ((step setup pool event).holding setup addr).Complete := by
  by_cases hreset : ∃ reinject statedb gasLimit, event.op = .reset reinject (some statedb) gasLimit
  · obtain ⟨call, op⟩ := event
    obtain ⟨reinject, statedb, gasLimit, rfl⟩ := hreset
    have hrenewed := sound_renewed setup call reinject statedb gasLimit hsound
    exact ((promoteExecutables_moves call.later none hrenewed).shifts addr).complete not_false
      (hrenewed addr)
      (complete_renewed setup call reinject statedb gasLimit hsound hstrands (hcomplete addr))
  · push Not at hreset
    exact ((step_moves hsound hreset).shifts addr).complete hstrands (hsound addr) (hcomplete addr)

/-- Over every run, what is listed is in the index, once, under its sender and nonce. -/
theorem sound_run (setup : Setup) (statedb : StateDB) (gasLimit : ℕ) (events : List Event) :
    (run setup (newTxPool setup statedb gasLimit) events).Sound setup := by
  have hthroughout : Throughout (step setup) (fun _ _ ↦ True) (newTxPool setup statedb gasLimit)
    events := throughout_of_forall fun _ _ _ ↦ trivial
  exact invariant_throughout (Pool.Sound setup) (fun _ _ hsound _ ↦ sound_step hsound)
    (sound_newTxPool setup statedb gasLimit) hthroughout

/-- With at least one slot for an account, the index and the lists agree after every run in which no
removal strands transactions. -/
theorem consistent_run (setup : Setup) (statedb : StateDB) (gasLimit : ℕ) (events : List Event)
    (hslots : 0 < setup.config.accountSlots)
    (hclean : Throughout (step setup) (fun pool event ↦ ¬pool.StrandsOn setup event)
      (newTxPool setup statedb gasLimit) events) :
    (run setup (newTxPool setup statedb gasLimit) events).Consistent setup := by
  have hinvariant := invariant_throughout
    (fun pool ↦ pool.Sound setup ∧ (∀ addr, (pool.holding setup addr).Complete) ∧ pool.Filled)
    (fun pool event hpool hstrands ↦ ⟨sound_step hpool.1, complete_step hpool.1 hstrands hpool.2.1,
      keepsFilled_step hslots event hpool.2.2⟩)
    ⟨sound_newTxPool setup statedb gasLimit, fun _ _ h ↦ absurd h.1 List.not_mem_nil,
      fun _ _ h ↦ (by cases h), fun _ _ h ↦ (by cases h)⟩ hclean
  exact consistent_of_sound hinvariant.1 hinvariant.2.1 hinvariant.2.2

-- Without a slot, the fairness cap leaves an empty list behind.
example : ((run (sampleSetup 0) (newTxPool (sampleSetup 0) (sampleState 0 (10 ^ 17)) 0)
    [⟨sampleCall, .addTx (sampleTx 7 0) false⟩]).pending.lookup 7).map TxList.txs = some [] := by
  decide

/-- Two transactions of one account are pending and one of them is removed. -/
def sampleRemoval (removed : ℕ) : List Event :=
  [⟨sampleCall, .addTx (sampleTx 7 0) false⟩, ⟨sampleCall, .addTx (sampleTx 7 1) false⟩,
    ⟨sampleCall, .removeTx (sampleTx 7 removed)⟩]

theorem consistent_run_sampleRemoval :
    (run (sampleSetup 4) samplePool (sampleRemoval 1)).all = [sampleTx 7 0] ∧
      (run (sampleSetup 4) samplePool (sampleRemoval 1)).Consistent (sampleSetup 4) := by
  refine ⟨by decide, consistent_run (sampleSetup 4) (sampleState 0 (10 ^ 17)) 0 (sampleRemoval 1)
    (by decide) ⟨?_, ?_, ?_, trivial⟩⟩
  · rintro ⟨-, -, hfull, -⟩
    revert hfull
    decide
  · rintro ⟨-, -, hfull, -⟩
    revert hfull
    decide
  · rintro ⟨-, -, -, hbehind⟩
    exact hbehind (by decide)

/-- Removing the first of the two leaves the second one in the index and in no list. -/
theorem not_consistent_sampleRemoval :
    ¬(run (sampleSetup 4) samplePool (sampleRemoval 0)).Consistent (sampleSetup 4) := by
  intro hconsistent
  have hpending : (run (sampleSetup 4) samplePool (sampleRemoval 0)).pending = ∅ := rfl
  have hqueue : (run (sampleSetup 4) samplePool (sampleRemoval 0)).queue = ∅ := rfl
  obtain ⟨⟨lane, addr⟩, hmem, -⟩ := (hconsistent.index (sampleTx 7 1)).mp (by decide)
  cases lane with
  | pending =>
    simp only [Pool.lane, pendingOf, hpending] at hmem
    exact List.not_mem_nil hmem
  | queue =>
    simp only [Pool.lane, queueOf, hqueue] at hmem
    exact List.not_mem_nil hmem

end Pool

end LkChain.TxPool
