import LkChain.TxPool.Operations

/-!
# Resets

`reset` puts the pool on a new state of the chain. The pending state starts from it, discarded
transactions are reinjected, and each pending list is cut to what the new state can execute, one
transaction at a time: whether an account can pay for its pending transactions together is not
looked at. Then the pending nonces and balances are counted anew and queued transactions promoted.
-/

namespace LkChain.TxPool

open Foundation Lanes Ethereum State Transactions

namespace Pool

variable {setup : Setup} {call : Call} {rules : Rules} {pool after : Pool}
  {addr observed : Address} {tx : Transaction} {txs : List Transaction} {isLocal : Bool}

/-! ## Demotion -/

/-- The pending list of an account has been cut: some transactions are dropped, others queued. -/
structure Cut (setup : Setup) (pool : Pool) (addr : Address) (kept : TxList true)
    (dropped demoted : List Transaction) (after : Pool) : Prop where
  settings : after.settings = pool.settings
  pendingState : after.pendingState = pool.pendingState
  pending : (after.pendingOf addr).txs = kept.txs
  pendings : ∀ observed, observed ≠ addr → after.pendingOf observed = pool.pendingOf observed
  queue : ∀ observed, (after.queueOf observed).txs =
    if observed = addr then putAll Transaction.accountNonce demoted (pool.queueOf addr).txs
    else (pool.queueOf observed).txs
  all : ∀ other, other ∈ after.all ↔ other ∈ demoted ∨ other ∈ pool.all ∧ other ∉ dropped

theorem cut_demoteAccount {kept : TxList true} {dropped demoted : List Transaction}
    (hsound : pool.Sound setup)
    (hdemotion : (pool.pendingOf addr).demotion (pool.currentState.getNonce addr)
      (pool.currentState.getBalance addr) = (kept, dropped, demoted))
    (hdemoted : TxList.Demoted (pool.pendingOf addr) kept dropped demoted) :
    Cut setup pool addr kept dropped demoted (pool.demoteAccount setup addr) := by
  set forgotten := pool.forgetAll setup dropped with hforgotten
  have hsame : SameLists pool forgotten := sameLists_forgetAll
  have hfresh : ∀ other ∈ demoted, ∀ queued ∈ (forgotten.queueOf addr).txs,
      other.accountNonce ≠ queued.accountNonce := by
    rw [queueOf_congr hsame.queue]
    exact fun other hother queued hqueued ↦
      (hsound addr).apart other (hdemoted.mem_demoted other hother) queued hqueued
  obtain ⟨hqueue, hpending, hstate, hsettings, hall⟩ := enqueueAll_spec
    (fun other hother ↦ ((hsound addr).ready_known other (hdemoted.mem_demoted other hother)).2)
    hfresh hdemoted.distinct
  obtain ⟨hqueue', hall', hstate', hsettings'⟩ :=
    setPending_rest (forgotten.enqueueAll setup demoted) addr kept
  have hafter : pool.demoteAccount setup addr =
      (forgotten.enqueueAll setup demoted).setPending addr kept := by
    unfold demoteAccount
    rw [hdemotion]
  rw [hafter]
  constructor
  · rw [hsettings', hsettings, hsame.settings]
  · rw [hstate', hstate, hsame.pendingState]
  · rw [pendingOf_setPending, if_pos rfl]
  · intro observed hne
    rw [pendingOf_setPending_of_ne hne, pendingOf_congr hpending, pendingOf_congr hsame.pending]
  · intro observed
    rw [queueOf_congr hqueue', hqueue, queueOf_congr hsame.queue]
  · intro other
    rw [hall', hall, hforgotten, mem_all_forgetAll]

section Cut

variable {kept : TxList true} {dropped demoted : List Transaction}
  (hcut : Cut setup pool addr kept dropped demoted after) (hsound : pool.Sound setup)
  (hdemoted : TxList.Demoted (pool.pendingOf addr) kept dropped demoted)
include hcut hsound hdemoted

theorem Cut.holding : after.holding setup addr =
    (pool.holding setup addr).demote Transaction.accountNonce kept.txs demoted := by
  ext1
  · exact hcut.pending
  · exact (hcut.queue addr).trans (if_pos rfl)
  · ext other
    show other ∈ after.all ∧ _ ↔ (other ∈ pool.all ∧ setup.account other = addr) ∧
      (other ∈ (pool.pendingOf addr).txs → other ∈ kept.txs ∨ other ∈ demoted)
    rw [hcut.all]
    constructor
    · rintro ⟨hmem | ⟨hindexed, hstays⟩, haccount⟩
      · exact ⟨(hsound addr).ready_known other (hdemoted.mem_demoted other hmem), fun _ ↦ .inr hmem⟩
      · exact ⟨⟨hindexed, haccount⟩, fun hpended ↦ (hdemoted.stays other hpended).mp hstays⟩
    · rintro ⟨⟨hindexed, haccount⟩, hstays⟩
      refine ⟨.inr ⟨hindexed, fun hdropped ↦ ?_⟩, haccount⟩
      have hpended := hdemoted.mem_dropped other hdropped
      exact (hdemoted.stays other hpended).mpr (hstays hpended) hdropped
  · exact congrArg (ManagedState.getNonce · addr) hcut.pendingState
  · exact congrArg (ManagedState.getBalance · addr) hcut.pendingState

theorem Cut.holding_of_ne (hne : observed ≠ addr) :
    after.holding setup observed = pool.holding setup observed := by
  apply holding_congr
  · rw [hcut.pendings observed hne]
  · rw [hcut.queue, if_neg hne]
  · rintro other rfl
    rw [hcut.all]
    constructor
    · rintro (hmem | ⟨hindexed, -⟩)
      · exact ((hsound addr).ready_known other (hdemoted.mem_demoted other hmem)).1
      · exact hindexed
    · exact fun hindexed ↦ .inr ⟨hindexed, fun hdropped ↦
        hne ((hsound addr).ready_known other (hdemoted.mem_dropped other hdropped)).2⟩
  · rw [hcut.pendingState]
  · rw [hcut.pendingState]

end Cut

/-- The demotion of an account's pending list on the current state. -/
def demotion (pool : Pool) (addr : Address) : TxList true × List Transaction × List Transaction :=
  (pool.pendingOf addr).demotion (pool.currentState.getNonce addr)
    (pool.currentState.getBalance addr)

/-- What an account has after its pending list was cut. -/
def demotedHolding (setup : Setup) (pool : Pool) (addr : Address) : Holding Transaction :=
  (pool.holding setup addr).demote Transaction.accountNonce (pool.demotion addr).1.txs
    (pool.demotion addr).2.2

theorem demoteAccount_spec (addr : Address) (hsound : pool.Sound setup) :
    (pool.demoteAccount setup addr).settings = pool.settings ∧
      (pool.demoteAccount setup addr).holding setup addr = pool.demotedHolding setup addr ∧
      ∀ observed, observed ≠ addr →
        (pool.demoteAccount setup addr).holding setup observed = pool.holding setup observed ∧
        (pool.demoteAccount setup addr).pendingOf observed = pool.pendingOf observed := by
  have hdemoted : TxList.Demoted (pool.pendingOf addr) (pool.demotion addr).1
      (pool.demotion addr).2.1 (pool.demotion addr).2.2 := TxList.demotion_spec _ _ _
  have hcut := cut_demoteAccount hsound rfl hdemoted
  exact ⟨hcut.settings, hcut.holding hsound hdemoted, fun observed hne ↦
    ⟨hcut.holding_of_ne hsound hdemoted hne, hcut.pendings observed hne⟩⟩

theorem sound_demotedHolding (hsound : pool.Sound setup) :
    (pool.demotedHolding setup addr).Sound Transaction.accountNonce := by
  have hdemoted := TxList.demotion_spec (pool.pendingOf addr) (pool.currentState.getNonce addr)
    (pool.currentState.getBalance addr)
  exact (hsound addr).demote hdemoted.sublist hdemoted.mem_demoted hdemoted.distinct hdemoted.apart

theorem complete_demotedHolding (hsound : pool.Sound setup)
    (hcomplete : (pool.holding setup addr).Complete) :
    (pool.demotedHolding setup addr).Complete := by
  have hdemoted := TxList.demotion_spec (pool.pendingOf addr) (pool.currentState.getNonce addr)
    (pool.currentState.getBalance addr)
  exact hcomplete.demote (hsound addr) hdemoted.mem_demoted hdemoted.distinct

/-- After the turns of several accounts, the pending list of each of them was cut once. -/
theorem demoteAccounts_spec {accounts : List Address} (hnodup : accounts.Nodup)
    (hsound : pool.Sound setup) :
    (accounts.foldl (demoteAccount setup) pool).settings = pool.settings ∧
      ∀ observed, (accounts.foldl (demoteAccount setup) pool).holding setup observed =
        if observed ∈ accounts then pool.demotedHolding setup observed
        else pool.holding setup observed := by
  induction accounts generalizing pool with
  | nil => exact ⟨rfl, fun observed ↦ by simp⟩
  | cons addr accounts ih =>
    obtain ⟨hnot, hnodup⟩ := List.nodup_cons.mp hnodup
    obtain ⟨hsettings, hself, hothers⟩ := demoteAccount_spec addr hsound
    have hsound' : (pool.demoteAccount setup addr).Sound setup := by
      intro observed
      by_cases hsame : observed = addr
      · rw [hsame, hself]
        exact sound_demotedHolding hsound
      · rw [(hothers observed hsame).1]
        exact hsound observed
    obtain ⟨hsettings', hholding⟩ := ih hnodup hsound'
    refine ⟨hsettings'.trans hsettings, fun observed ↦ (hholding observed).trans ?_⟩
    by_cases hsame : observed = addr
    · rw [hsame, if_neg hnot, if_pos (List.mem_cons_self ..), hself]
    · have hdemoted : (pool.demoteAccount setup addr).demotedHolding setup observed =
          pool.demotedHolding setup observed := by
        obtain ⟨hsameHolding, hsamePending⟩ := hothers observed hsame
        unfold demotedHolding demotion
        rw [hsameHolding, hsamePending, currentState_of_settings hsettings]
      rw [hdemoted, (hothers observed hsame).1]
      simp [hsame]

theorem pendingOf_of_not_mem (hnot : addr ∉ pool.pending.keys) : pool.pendingOf addr =
    .new true := by
  rw [pendingOf, AList.lookup_eq_none.mpr hnot]
  rfl

theorem demotedHolding_of_not_mem (hnot : addr ∉ pool.pending.keys) :
    pool.demotedHolding setup addr = pool.holding setup addr := by
  have hdemoted := TxList.demotion_spec (pool.pendingOf addr) (pool.currentState.getNonce addr)
    (pool.currentState.getBalance addr)
  have hnil : (pool.pendingOf addr).txs = [] := by rw [pendingOf_of_not_mem hnot]; rfl
  have hkept : (pool.demotion addr).1.txs = [] := List.sublist_nil.mp (hnil ▸ hdemoted.sublist)
  have hnone : (pool.demotion addr).2.2 = [] := by
    apply List.eq_nil_iff_forall_not_mem.mpr
    intro tx htx
    have hmem := hdemoted.mem_demoted tx htx
    rw [hnil] at hmem
    exact List.not_mem_nil hmem
  unfold demotedHolding
  rw [hkept, hnone]
  unfold holding Holding.demote
  simp [hnil, putAll]

/-- After `demoteUnexecutables` the pending list of every account has been cut. -/
theorem demoteUnexecutables_spec (call : Call) (hsound : pool.Sound setup) :
    (pool.demoteUnexecutables setup call).settings = pool.settings ∧
      ∀ observed, (pool.demoteUnexecutables setup call).holding setup observed =
        pool.demotedHolding setup observed := by
  have hperm := call.order_perm 4 pool.pending.keys
  have hnodup : (call.order 4 pool.pending.keys).Nodup :=
    hperm.nodup_iff.mpr pool.pending.keys_nodup
  obtain ⟨hsettings, hholding⟩ := demoteAccounts_spec hnodup hsound
  refine ⟨hsettings, fun observed ↦ (hholding observed).trans ?_⟩
  split_ifs with hmem
  · rfl
  · rw [hperm.mem_iff] at hmem
    exact (demotedHolding_of_not_mem hmem).symm

/-! ## Counting the pending nonces and balances anew -/

/-- What an account has once its pending nonce and balance were counted anew. -/
def countedHolding (setup : Setup) (pool : Pool) (addr : Address) : Holding Transaction :=
  let last := latest (pool.currentState.getNonce addr) (pool.currentState.getBalance addr)
    (pool.pendingOf addr).txs
  (pool.holding setup addr).restart ((last.1 + 1) % 2 ^ 64) last.2

/-- What counting leaves alone: the lists, the index and what the state shows. -/
structure SameContent (pool after : Pool) : Prop where
  pending : after.pending = pool.pending
  queue : after.queue = pool.queue
  all : after.all = pool.all
  view : after.currentState.view = pool.currentState.view

theorem updateAccount_content (pool : Pool) (addr : Address) :
    SameContent pool (pool.updateAccount addr) :=
  ⟨rfl, rfl, rfl, StateDB.view_getOrNewStateObject⟩

theorem SameContent.countedHolding (hcontent : SameContent pool after)
    (hholding : after.holding setup addr = pool.holding setup addr) :
    after.countedHolding setup addr = pool.countedHolding setup addr := by
  unfold Pool.countedHolding StateDB.getNonce StateDB.getBalance
  rw [hholding, hcontent.view, pendingOf_congr hcontent.pending]

theorem holding_updateAccount (addr observed : Address) :
    (pool.updateAccount addr).holding setup observed =
      if observed = addr then pool.countedHolding setup observed
      else pool.holding setup observed := by
  have hobject : (pool.currentState.getOrNewStateObject addr).2 = pool.currentState.view addr :=
    StateDB.getOrNewStateObject_snd
  split_ifs with hsame
  · subst hsame
    unfold countedHolding Holding.restart holding updateAccount
    dsimp only
    rw [hobject]
    simp only [ManagedState.getNonce_setNonceAndBalance, ManagedState.getBalance_setNonceAndBalance,
      if_true]
    rfl
  · apply holding_congr
    · rfl
    · rfl
    · exact fun _ _ ↦ Iff.rfl
    · exact (ManagedState.getNonce_setNonceAndBalance _ _ _ _ _).trans (if_neg hsame)
    · exact (ManagedState.getBalance_setNonceAndBalance _ _ _ _ _).trans (if_neg hsame)

theorem updateAccounts_foldl (setup : Setup) (pool : Pool) {accounts : List Address}
    (hnodup : accounts.Nodup) :
    SameContent pool (accounts.foldl updateAccount pool) ∧
      ∀ observed, (accounts.foldl updateAccount pool).holding setup observed =
        if observed ∈ accounts then pool.countedHolding setup observed
        else pool.holding setup observed := by
  induction accounts generalizing pool with
  | nil => exact ⟨⟨rfl, rfl, rfl, rfl⟩, fun observed ↦ by simp⟩
  | cons addr accounts ih =>
    obtain ⟨hnot, hnodup⟩ := List.nodup_cons.mp hnodup
    have hcontent := updateAccount_content pool addr
    obtain ⟨hcontent', hholding⟩ := ih (pool.updateAccount addr) hnodup
    refine ⟨⟨hcontent'.pending.trans hcontent.pending, hcontent'.queue.trans hcontent.queue,
      hcontent'.all.trans hcontent.all, hcontent'.view.trans hcontent.view⟩,
      fun observed ↦ (hholding observed).trans ?_⟩
    by_cases hsame : observed = addr
    · rw [hsame, if_neg hnot, if_pos (List.mem_cons_self ..), holding_updateAccount, if_pos rfl]
    · have hother : (pool.updateAccount addr).holding setup observed =
          pool.holding setup observed := by
        rw [holding_updateAccount, if_neg hsame]
      rw [hcontent.countedHolding hother, hother]
      simp [hsame]

/-- Once all accounts are counted, those with a pending list have their nonce and balance from
it. -/
theorem updateAccounts_spec (setup : Setup) (call : Call) (pool : Pool) :
    SameContent pool (pool.updateAccounts call) ∧
      ∀ observed, (pool.updateAccounts call).holding setup observed =
        if observed ∈ pool.pending.keys then pool.countedHolding setup observed
        else pool.holding setup observed := by
  have hperm := call.order_perm 5 pool.pending.keys
  have hnodup : (call.order 5 pool.pending.keys).Nodup :=
    hperm.nodup_iff.mpr pool.pending.keys_nodup
  obtain ⟨hcontent, hholding⟩ := updateAccounts_foldl setup pool hnodup
  refine ⟨hcontent, fun observed ↦ (hholding observed).trans ?_⟩
  simp only [hperm.mem_iff]

theorem latest_append (curnonce : ℕ) (balance : ℤ) (txs : List Transaction) (tx : Transaction) :
    latest curnonce balance (txs ++ [tx]) =
      if curnonce ≤ tx.accountNonce then
        (tx.accountNonce, (latest curnonce balance txs).2 - tx.cost)
      else latest curnonce balance txs := by
  simp [latest, List.foldl_append]

theorem latest_snd {curnonce : ℕ} (balance : ℤ) (hlow : ∀ tx ∈ txs, curnonce ≤ tx.accountNonce) :
    (latest curnonce balance txs).2 = balance - (txs.map Transaction.cost).sum := by
  induction txs using List.reverseRecOn with
  | nil => simp [latest]
  | append_singleton txs tx ih =>
    rw [latest_append, if_pos (hlow tx (by simp)), ih fun other hother ↦
      hlow other (by simp [hother]),
      List.map_append, List.sum_append]
    simp only [List.map_singleton, List.sum_singleton, Int.natCast_add]
    omega

theorem latest_fst {curnonce : ℕ} (balance : ℤ)
    (hnonces : txs.map Transaction.accountNonce = List.range' curnonce txs.length)
    (hcurrent : curnonce < 2 ^ 64) (hbound : ∀ tx ∈ txs, tx.accountNonce + 1 < 2 ^ 64) :
    ((latest curnonce balance txs).1 + 1) % 2 ^ 64 = curnonce + txs.length := by
  rcases List.eq_nil_or_concat' txs with rfl | ⟨front, tx, rfl⟩
  · show ((curnonce + (2 ^ 64 - 1)) % 2 ^ 64 + 1) % 2 ^ 64 = curnonce + 0
    omega
  · have hlast : tx.accountNonce = curnonce + front.length := by
      rw [List.map_append, List.length_append, List.length_singleton, List.range'_concat, one_mul]
        at hnonces
      simpa using (List.append_inj_right' hnonces rfl)
    rw [latest_append, if_pos (hlast ▸ Nat.le_add_right ..), Nat.mod_eq_of_lt (hbound tx (by simp)),
      List.length_append, List.length_singleton, hlast]
    omega

/-! ## Reinjection -/

/-- A transaction behind the pending nonce of its account is refused. -/
theorem add_of_behind (setup : Setup) (call : Call) (isLocal : Bool)
    (hbehind : tx.accountNonce < pool.pendingState.getNonce (setup.account tx)) :
    ∃ error, pool.add setup call tx isLocal = (pool, .error error) := by
  unfold add
  by_cases hknown : tx ∈ pool.all
  · exact ⟨.known, if_pos hknown⟩
  · rw [if_neg hknown]
    cases hvalid : pool.validateTx setup call tx isLocal with
    | error error => exact ⟨error, rfl⟩
    | ok _ => exact absurd (validateTx_ok hvalid).1 hbehind.ne

theorem addTxs_of_behind (setup : Setup) (call : Call) (isLocal : Bool)
    (hbehind : ∀ tx ∈ txs, tx.accountNonce < pool.pendingState.getNonce (setup.account tx)) :
    (pool.addTxs setup call txs isLocal).1 = pool := by
  have hall : (addAll setup call isLocal txs pool).1 = pool ∧
      (addAll setup call isLocal txs pool).2.2 = [] := by
    induction txs with
    | nil => exact ⟨rfl, rfl⟩
    | cons tx txs ih =>
      obtain ⟨error, hadd⟩ := add_of_behind setup call isLocal (hbehind tx (List.mem_cons_self ..))
      rw [addAll, hadd]
      exact ih fun other hother ↦ hbehind other (List.mem_cons_of_mem tx hother)
  unfold addTxs
  dsimp only
  rw [hall.2, hall.1]
  rfl

/-! ## The whole reset -/

section Reset

variable (setup : Setup) (call : Call) (reinject : List Transaction) (statedb : StateDB)
  (gasLimit : ℕ)

/-- The pool on a new head, once discarded transactions are reinjected. -/
def reinjected (pool : Pool) : Pool :=
  ((pool.rebase statedb gasLimit).addTxs setup call reinject false).1

/-- The pool before its queued transactions are promoted again. -/
def renewed (pool : Pool) : Pool :=
  ((pool.reinjected setup call reinject statedb gasLimit).demoteUnexecutables setup
    call).updateAccounts call

theorem sound_rebase (hsound : pool.Sound setup) : (pool.rebase statedb gasLimit).Sound setup :=
  fun addr ↦ (hsound addr).restart _ _

/-- The lanes of the rebased pool shift when transactions are reinjected. -/
theorem moves_reinjected (hsound : pool.Sound setup) :
    Moves setup ⟨fun _ ↦ True, True,
        AddsStrand setup call false reinject (pool.rebase statedb gasLimit)⟩
      (pool.rebase statedb gasLimit) (pool.reinjected setup call reinject statedb gasLimit) :=
  addTxs_refines (fun _ _ ↦ trivial) (fun _ ↦ trivial) (fun h ↦ h)
    (sound_rebase setup statedb gasLimit hsound)

theorem sound_reinjected (hsound : pool.Sound setup) :
    (pool.reinjected setup call reinject statedb gasLimit).Sound setup :=
  (moves_reinjected setup call reinject statedb gasLimit hsound).sound
    (sound_rebase setup statedb gasLimit hsound)

/-- After demotion and counting, every account has its cut lists, with some nonce and balance. -/
theorem exists_restart (hsound : pool.Sound setup) (addr : Address) :
    ∃ next funds, ((pool.demoteUnexecutables setup call).updateAccounts call).holding setup addr =
      (pool.demotedHolding setup addr).restart next funds := by
  obtain ⟨-, hdemoted⟩ := demoteUnexecutables_spec call hsound
  obtain ⟨-, hholding⟩ := updateAccounts_spec setup call (pool.demoteUnexecutables setup call)
  rw [hholding, ← hdemoted]
  split_ifs
  · exact ⟨_, _, rfl⟩
  · exact ⟨_, _, rfl⟩

theorem sound_renewed (hsound : pool.Sound setup) :
    (pool.renewed setup call reinject statedb gasLimit).Sound setup := by
  have hreinjected := sound_reinjected setup call reinject statedb gasLimit hsound
  intro addr
  obtain ⟨next, funds, hholding⟩ := exists_restart setup call hreinjected addr
  rw [renewed, hholding]
  exact (sound_demotedHolding hreinjected).restart _ _

theorem view_renewed (hsound : pool.Sound setup) :
    (pool.renewed setup call reinject statedb gasLimit).currentState.view = statedb.view := by
  have hreinjected := sound_reinjected setup call reinject statedb gasLimit hsound
  have hmoves := moves_reinjected setup call reinject statedb gasLimit hsound
  rw [renewed, (updateAccounts_spec setup call _).1.view,
    currentState_of_settings (demoteUnexecutables_spec call hreinjected).1, hmoves.currentState]
  rfl

/-- A reset keeps the index complete unless its reinjections strand transactions. -/
theorem complete_renewed (hsound : pool.Sound setup)
    (hstranding : ¬AddsStrand setup call false reinject (pool.rebase statedb gasLimit))
    (hcomplete : (pool.holding setup addr).Complete) :
    ((pool.renewed setup call reinject statedb gasLimit).holding setup addr).Complete := by
  have hreinjected := sound_reinjected setup call reinject statedb gasLimit hsound
  have hmoves := moves_reinjected setup call reinject statedb gasLimit hsound
  have hrebased : ((pool.rebase statedb gasLimit).holding setup addr).Complete := hcomplete
  obtain ⟨next, funds, hholding⟩ := exists_restart setup call hreinjected addr
  rw [renewed, hholding]
  exact complete_demotedHolding hreinjected ((hmoves.shifts addr).complete hstranding
    (sound_rebase setup statedb gasLimit hsound addr) hrebased)

end Reset

/-! ## Steps -/

/-- The transactions that an event submits. -/
def submitted (event : Event) : List Transaction :=
  match event.op with
  | .addTx tx _ => [tx]
  | .addTxs txs _ => txs
  | _ => []

/-- The event removes transactions that the pool knows, or may do so because a limit is reached. -/
def Removes (setup : Setup) (pool : Pool) (event : Event) : Prop :=
  match event.op with
  | .addTx tx isLocal => pool.isFull setup = true ∨
    (pool.add setup event.call tx isLocal).1.Overflows setup event.call (some [setup.account tx])
  | .addTxs txs isLocal => FillsUp setup event.call isLocal txs pool ∨
    (addAll setup event.call isLocal txs pool).1.Overflows setup event.call
      (some (event.call.order 3 (addAll setup event.call isLocal txs pool).2.2))
  | .removeTx tx => tx ∈ pool.all
  | .setGasPrice price => (pool.reprice setup price).2 ≠ []
  | .promoteExecutables accounts => pool.Overflows setup event.call accounts
  | .reset reinject (some statedb) gasLimit =>
    (pool.renewed setup event.call reinject statedb gasLimit).Overflows setup event.call.later none
  | _ => False

/-- A removal of the event leaves transactions in the index that are in no list. -/
def StrandsOn (setup : Setup) (pool : Pool) (event : Event) : Prop :=
  match event.op with
  | .addTx tx isLocal => pool.AddStrands setup event.call tx isLocal
  | .addTxs txs isLocal => AddsStrand setup event.call isLocal txs pool
  | .removeTx tx => pool.Strands setup tx
  | .setGasPrice price => StrandsAny setup (pool.reprice setup price).1 (pool.reprice setup price).2
  | .reset reinject (some statedb) gasLimit =>
    AddsStrand setup event.call false reinject (pool.rebase statedb gasLimit)
  | _ => False

theorem step_refines {event : Event} (hadmitted : ∀ tx ∈ submitted event, rules.admitted tx)
    (hremoving : pool.Removes setup event → rules.removing)
    (hstranding : pool.StrandsOn setup event → rules.stranding)
    (hreset : ∀ reinject statedb gasLimit, event.op ≠ .reset reinject (some statedb) gasLimit) :
    Refines setup rules pool (step setup pool event) := by
  obtain ⟨call, op⟩ := event
  cases op with
  | addTx tx isLocal =>
    exact addTx_refines (hadmitted tx (List.mem_singleton_self tx)) hremoving hstranding
  | addTxs txs isLocal => exact addTxs_refines hadmitted hremoving hstranding
  | removeTx tx => exact removeTx_refines hremoving hstranding
  | setGasPrice price => exact setGasPrice_refines hremoving hstranding
  | promoteExecutables accounts => exact promoteExecutables_refines hremoving
  | reset reinject statedb gasLimit =>
    cases statedb with
    | none => exact .refl pool
    | some statedb => exact absurd rfl (hreset reinject statedb gasLimit)
  | evict => exact evict_refines
  | homestead => exact fun _ ↦ moves_of_holding rfl fun _ ↦ rfl

theorem sound_newTxPool (setup : Setup) (statedb : StateDB) (gasLimit : ℕ) :
    (newTxPool setup statedb gasLimit).Sound setup := fun _ ↦
  ⟨fun _ h ↦ absurd h List.not_mem_nil, fun _ h ↦ absurd h List.not_mem_nil, .nil, .nil,
    fun _ h ↦ absurd h List.not_mem_nil⟩

end Pool

end LkChain.TxPool
