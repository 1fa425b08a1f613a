import LkChain.TxPool.Pool

/-!
# What an account has in the pool

The pool seen from one account: its pending and queued transactions, those of the index that it
sent, and its nonce and balance in the pending state. Seen so, the pool is two lanes of transactions
per account, numbered by their nonces. Each operation on the lists of an account is one change of
its lanes, or a sequence of them, and leaves the other accounts as they are.
-/

namespace LkChain.TxPool

open Foundation Lanes Ethereum State Transactions

namespace Pool

/-- What an account has in the pool. -/
def holding (setup : Setup) (pool : Pool) (addr : Address) : Holding Transaction where
  ready := (pool.pendingOf addr).txs
  waiting := (pool.queueOf addr).txs
  known := {tx | tx ∈ pool.all ∧ setup.account tx = addr}
  next := pool.pendingState.getNonce addr
  funds := pool.pendingState.getBalance addr

/-- Every account has its transactions in order. -/
def Sound (setup : Setup) (pool : Pool) : Prop :=
  ∀ addr, (pool.holding setup addr).Sound Transaction.accountNonce

/-- The fields that only `reset`, `SetGasPrice` and the marking of local accounts write. -/
structure Settings where
  currentState : StateDB
  currentMaxGas : ℕ
  gasPrice : ℕ
  locals : List Address
  homestead : Bool

def settings (pool : Pool) : Settings where
  currentState := pool.currentState
  currentMaxGas := pool.currentMaxGas
  gasPrice := pool.gasPrice
  locals := pool.locals
  homestead := pool.homestead

/-! ## Updates of the maps -/

section Maps

variable {pool after : Pool} {addr observed : Address} {tx other : Transaction}
  {txs : List Transaction} {setup : Setup} {call : Call}

theorem pendingOf_congr (hpending : after.pending = pool.pending) :
    after.pendingOf = pool.pendingOf := by
  funext observed
  rw [pendingOf, pendingOf, hpending]

theorem queueOf_congr (hqueue : after.queue = pool.queue) : after.queueOf = pool.queueOf := by
  funext observed
  rw [queueOf, queueOf, hqueue]

theorem pendingOf_insert {list : TxList true}
    (hpending : after.pending = pool.pending.insert addr list) :
    after.pendingOf observed = if observed = addr then list else pool.pendingOf observed := by
  rw [pendingOf, hpending]
  split_ifs with hsame
  · rw [hsame, AList.lookup_insert, Option.getD_some]
  · rw [AList.lookup_insert_ne hsame, pendingOf]

theorem queueOf_insert {list : TxList false}
    (hqueue : after.queue = pool.queue.insert addr list) :
    after.queueOf observed = if observed = addr then list else pool.queueOf observed := by
  rw [queueOf, hqueue]
  split_ifs with hsame
  · rw [hsame, AList.lookup_insert, Option.getD_some]
  · rw [AList.lookup_insert_ne hsame, queueOf]

theorem pendingOf_setPending_of_ne (hne : observed ≠ addr) (list : TxList true) :
    (pool.setPending addr list).pendingOf observed = pool.pendingOf observed := by
  unfold setPending
  split_ifs
  · rw [pendingOf, AList.lookup_erase_ne hne, pendingOf]
  · rw [pendingOf_insert rfl, if_neg hne]

theorem pendingOf_setPending (list : TxList true) :
    ((pool.setPending addr list).pendingOf observed).txs =
      if observed = addr then list.txs else (pool.pendingOf observed).txs := by
  split_ifs with hsame
  · unfold setPending
    split_ifs with hempty
    · rw [hsame, pendingOf, AList.lookup_erase, TxList.empty_iff.mp hempty]
      rfl
    · rw [pendingOf_insert rfl, if_pos hsame]
  · rw [pendingOf_setPending_of_ne hsame]

theorem queueOf_setQueue (list : TxList false) :
    ((pool.setQueue addr list).queueOf observed).txs =
      if observed = addr then list.txs else (pool.queueOf observed).txs := by
  unfold setQueue
  split_ifs with hempty hsame hsame
  · rw [hsame, queueOf, AList.lookup_erase, TxList.empty_iff.mp hempty]
    rfl
  · rw [queueOf, AList.lookup_erase_ne hsame, queueOf]
  · rw [queueOf_insert rfl, if_pos hsame]
  · rw [queueOf_insert rfl, if_neg hsame]

/-! ## What does not change -/

/-- The index aside, two pools agree. -/
structure SameLists (pool after : Pool) : Prop where
  pending : after.pending = pool.pending
  queue : after.queue = pool.queue
  pendingState : after.pendingState = pool.pendingState
  settings : after.settings = pool.settings

theorem SameLists.refl (pool : Pool) : SameLists pool pool := ⟨rfl, rfl, rfl, rfl⟩

theorem SameLists.trans {middle : Pool} (hfirst : SameLists pool middle)
    (hsecond : SameLists middle after) : SameLists pool after :=
  ⟨hsecond.pending.trans hfirst.pending, hsecond.queue.trans hfirst.queue,
    hsecond.pendingState.trans hfirst.pendingState, hsecond.settings.trans hfirst.settings⟩

theorem sameLists_forget : SameLists pool (pool.forget setup tx) := ⟨rfl, rfl, rfl, rfl⟩

theorem mem_all_forget : other ∈ (pool.forget setup tx).all ↔ other ∈ pool.all ∧ other ≠ tx := by
  simp [forget]

theorem sameLists_forgetAll : SameLists pool (pool.forgetAll setup txs) := by
  induction txs generalizing pool with
  | nil => exact .refl pool
  | cons tx txs ih => exact sameLists_forget.trans ih

theorem mem_all_forgetAll :
    other ∈ (pool.forgetAll setup txs).all ↔ other ∈ pool.all ∧ other ∉ txs := by
  induction txs generalizing pool with
  | nil => simp [forgetAll]
  | cons tx txs ih =>
    show other ∈ ((pool.forget setup tx).forgetAll setup txs).all ↔ _
    rw [ih, mem_all_forget, List.mem_cons, not_or, and_assoc]

theorem sameLists_forgetOld {old : Option Transaction} :
    SameLists pool (pool.forgetOld setup old) := by
  cases old with
  | none => exact .refl pool
  | some old => exact sameLists_forget

theorem mem_all_forgetOld {old : Option Transaction} :
    other ∈ (pool.forgetOld setup old).all ↔ other ∈ pool.all ∧ old ≠ some other := by
  cases old with
  | none => simp [forgetOld]
  | some old => simp [forgetOld, mem_all_forget, eq_comm]

theorem sameLists_remember : SameLists pool (pool.remember setup tx) := ⟨rfl, rfl, rfl, rfl⟩

theorem mem_all_remember : other ∈ (pool.remember setup tx).all ↔ other = tx ∨
    other ∈ pool.all := by
  simp [remember]

end Maps

/-! ## Queueing and promoting -/

section Moves

variable {setup : Setup} {call : Call} {pool after : Pool} {addr observed : Address}
  {tx other : Transaction} {txs rest : List Transaction}

/-- A holding depends on the lists, the index and the pending state of its account. -/
theorem holding_congr (hpending : (after.pendingOf addr).txs = (pool.pendingOf addr).txs)
    (hqueue : (after.queueOf addr).txs = (pool.queueOf addr).txs)
    (hall : ∀ tx, setup.account tx = addr → (tx ∈ after.all ↔ tx ∈ pool.all))
    (hnonce : after.pendingState.getNonce addr = pool.pendingState.getNonce addr)
    (hbalance : after.pendingState.getBalance addr = pool.pendingState.getBalance addr) :
    after.holding setup addr = pool.holding setup addr := by
  unfold holding
  congr 1
  ext tx
  exact and_congr_left (hall tx)

/-- A transaction has entered the queue of its account, in place of the one with its nonce. -/
structure Enqueued (setup : Setup) (pool : Pool) (tx : Transaction) (after : Pool) : Prop where
  queue : after.queue =
    pool.queue.insert (setup.account tx) ((pool.queueOf (setup.account tx)).put tx)
  pending : after.pending = pool.pending
  pendingState : after.pendingState = pool.pendingState
  settings : after.settings = pool.settings
  all : ∀ other, other ∈ after.all ↔ other = tx ∨
    other ∈ pool.all ∧ (pool.queueOf (setup.account tx)).get tx.accountNonce ≠ some other

/-- `enqueueTx` refuses a transaction and changes nothing, or the transaction enters the queue. -/
theorem enqueueTx_cases (setup : Setup) (pool : Pool) (tx : Transaction) :
    pool.enqueueTx setup tx = (pool, .error .replaceUnderpriced) ∨
      Enqueued setup pool tx (pool.enqueueTx setup tx).1 ∧ (pool.enqueueTx setup tx).2 =
        .ok ((pool.queueOf (setup.account tx)).get tx.accountNonce).isSome := by
  unfold enqueueTx
  dsimp only
  cases hadd : (pool.queueOf (setup.account tx)).add tx setup.config.priceBump with
  | none => exact .inl rfl
  | some added =>
    obtain ⟨list, old⟩ := added
    obtain ⟨rfl, rfl⟩ := TxList.add_eq_some hadd
    set queued := { pool with
      queue := pool.queue.insert (setup.account tx) ((pool.queueOf (setup.account tx)).put tx) }
    set old := (pool.queueOf (setup.account tx)).get tx.accountNonce
    have hsame : SameLists queued ((queued.forgetOld setup old).remember setup tx) :=
      sameLists_forgetOld.trans sameLists_remember
    refine .inr ⟨⟨hsame.queue, hsame.pending, hsame.pendingState, hsame.settings, fun other ↦ ?_⟩,
      rfl⟩
    rw [mem_all_remember, mem_all_forgetOld]

/-- With a nonce that is not queued yet, a transaction is not refused. -/
theorem enqueued_of_get_eq_none
    (hget : (pool.queueOf (setup.account tx)).get tx.accountNonce = none) :
    Enqueued setup pool tx (pool.enqueueTx setup tx).1 := by
  rcases enqueueTx_cases setup pool tx with hrefused | ⟨henqueued, -⟩
  · unfold enqueueTx at hrefused
    dsimp only at hrefused
    rw [TxList.add_of_get_eq_none hget] at hrefused
    cases congrArg Prod.snd hrefused
  · exact henqueued

section Entered

variable {strict : Bool} {list : TxList strict}
  (hall : ∀ other, other ∈ after.all ↔ other = tx ∨
    other ∈ pool.all ∧ list.get tx.accountNonce ≠ some other)
include hall

/-- The known transactions of an account after one of them took the place of another in a list. -/
theorem known_of_entered :
    {other | other ∈ after.all ∧ setup.account other = setup.account tx} =
      {other | other = tx ∨
        other ∈ {other | other ∈ pool.all ∧ setup.account other = setup.account tx} ∧
          ¬(other ∈ list.txs ∧ other.accountNonce = tx.accountNonce)} := by
  ext other
  simp only [Set.mem_ofPred_eq, hall, ne_eq, TxList.get_eq_some_iff]
  constructor
  · rintro ⟨rfl | ⟨hmem, hnot⟩, haccount⟩
    · exact .inl rfl
    · exact .inr ⟨⟨hmem, haccount⟩, hnot⟩
  · rintro (rfl | ⟨⟨hmem, haccount⟩, hnot⟩)
    · exact ⟨.inl rfl, rfl⟩
    · exact ⟨.inr ⟨hmem, hnot⟩, haccount⟩

theorem mem_all_of_entered (hlist : ∀ other ∈ list.txs, setup.account other = setup.account tx)
    (hne : setup.account other ≠ setup.account tx) : other ∈ after.all ↔ other ∈ pool.all := by
  rw [hall, ne_eq, TxList.get_eq_some_iff]
  constructor
  · rintro (rfl | ⟨hmem, -⟩)
    · exact absurd rfl hne
    · exact hmem
  · exact fun hmem ↦ .inr ⟨hmem, fun hlisted ↦ hne (hlist other hlisted.1)⟩

end Entered

theorem Enqueued.holding (henqueued : Enqueued setup pool tx after) (hsound : pool.Sound setup) :
    after.holding setup observed =
      if observed = setup.account tx then
        (pool.holding setup observed).enqueue Transaction.accountNonce tx
      else pool.holding setup observed := by
  split_ifs with hsame
  · subst hsame
    unfold Pool.holding Holding.enqueue
    rw [pendingOf_congr henqueued.pending, queueOf_insert henqueued.queue, if_pos rfl,
      henqueued.pendingState, known_of_entered henqueued.all]
    rfl
  · apply holding_congr
    · rw [pendingOf_congr henqueued.pending]
    · rw [queueOf_insert henqueued.queue, if_neg hsame]
    · rintro other rfl
      exact mem_all_of_entered henqueued.all
        (fun queued hqueued ↦ ((hsound _).waiting_known queued hqueued).2) hsame
    · rw [henqueued.pendingState]
    · rw [henqueued.pendingState]

/-- A transaction has taken the place of a pending one. -/
structure Replaced (setup : Setup) (pool : Pool) (tx : Transaction) (after : Pool) : Prop where
  pending : after.pending =
    pool.pending.insert (setup.account tx) ((pool.pendingOf (setup.account tx)).put tx)
  queue : after.queue = pool.queue
  pendingState : after.pendingState = pool.pendingState
  settings : after.settings = pool.settings
  all : ∀ other, other ∈ after.all ↔ other = tx ∨
    other ∈ pool.all ∧ (pool.pendingOf (setup.account tx)).get tx.accountNonce ≠ some other

theorem Replaced.holding (hreplaced : Replaced setup pool tx after) (hsound : pool.Sound setup) :
    after.holding setup observed =
      if observed = setup.account tx then
        (pool.holding setup observed).replace Transaction.accountNonce tx
      else pool.holding setup observed := by
  split_ifs with hsame
  · subst hsame
    unfold Pool.holding Holding.replace
    rw [queueOf_congr hreplaced.queue, pendingOf_insert hreplaced.pending, if_pos rfl,
      hreplaced.pendingState, known_of_entered hreplaced.all]
    rfl
  · apply holding_congr
    · rw [pendingOf_insert hreplaced.pending, if_neg hsame]
    · rw [queueOf_congr hreplaced.queue]
    · rintro other rfl
      exact mem_all_of_entered hreplaced.all
        (fun pending hpending ↦ ((hsound _).ready_known pending hpending).2) hsame
    · rw [hreplaced.pendingState]
    · rw [hreplaced.pendingState]

/-- Transactions of one account with nonces that are not queued yet enter its queue one by one. -/
theorem enqueueAll_spec (haccount : ∀ tx ∈ txs, setup.account tx = addr)
    (hfresh : ∀ tx ∈ txs, ∀ other ∈ (pool.queueOf addr).txs, tx.accountNonce ≠ other.accountNonce)
    (hdistinct : txs.Pairwise (·.accountNonce ≠ ·.accountNonce)) :
    (∀ observed, ((pool.enqueueAll setup txs).queueOf observed).txs =
        if observed = addr then putAll Transaction.accountNonce txs (pool.queueOf addr).txs
        else (pool.queueOf observed).txs) ∧
      (pool.enqueueAll setup txs).pending = pool.pending ∧
      (pool.enqueueAll setup txs).pendingState = pool.pendingState ∧
      (pool.enqueueAll setup txs).settings = pool.settings ∧
      ∀ other, other ∈ (pool.enqueueAll setup txs).all ↔ other ∈ txs ∨ other ∈ pool.all := by
  induction txs generalizing pool with
  | nil =>
    refine ⟨fun observed ↦ ?_, rfl, rfl, rfl, by simp [enqueueAll]⟩
    split_ifs with hsame
    · rw [hsame]; rfl
    · rfl
  | cons tx txs ih =>
    obtain rfl := haccount tx (List.mem_cons_self ..)
    obtain ⟨hhead, htail⟩ := List.pairwise_cons.mp hdistinct
    have hget : (pool.queueOf (setup.account tx)).get tx.accountNonce = none := by
      apply TxList.get_eq_none_iff.mpr
      intro other hother
      exact (hfresh tx (List.mem_cons_self ..) other hother).symm
    have henqueued := enqueued_of_get_eq_none hget
    have hqueue : ((pool.enqueueTx setup tx).1.queueOf (setup.account tx)).txs =
        put Transaction.accountNonce tx (pool.queueOf (setup.account tx)).txs := by
      rw [queueOf_insert henqueued.queue, if_pos rfl]
      rfl
    have hfresh' : ∀ other ∈ txs,
        ∀ queued ∈ ((pool.enqueueTx setup tx).1.queueOf (setup.account tx)).txs,
          other.accountNonce ≠ queued.accountNonce := by
      intro other hother queued hqueued
      rw [hqueue] at hqueued
      rcases mem_put.mp hqueued with rfl | ⟨hqueued, -⟩
      · exact (hhead other hother).symm
      · exact hfresh other (List.mem_cons_of_mem tx hother) queued hqueued
    obtain ⟨hqueues, hpending, hstate, hsettings, hall⟩ :=
      ih (fun other hother ↦ haccount other (List.mem_cons_of_mem tx hother)) hfresh' htail
    refine ⟨fun observed ↦ ?_, hpending.trans henqueued.pending,
      hstate.trans henqueued.pendingState, hsettings.trans henqueued.settings, fun other ↦ ?_⟩
    · refine (hqueues observed).trans ?_
      split_ifs with hsame
      · rw [hqueue]
        rfl
      · rw [queueOf_insert henqueued.queue, if_neg hsame]
    · refine (hall other).trans ?_
      rw [henqueued.all, hget, List.mem_cons]
      simp only [ne_eq, reduceCtorEq, not_false_eq_true, and_true]
      exact or_left_comm.trans or_assoc.symm

theorem sameLists_ensure : SameLists pool (pool.ensure setup tx) := by
  unfold ensure
  split_ifs
  · exact .refl pool
  · exact sameLists_remember

theorem promoteTx_lists (setup : Setup) (call : Call) (pool : Pool) (addr : Address)
    (tx : Transaction) :
    ((pool.promoteTx setup call addr tx).pending = pool.pending ∨
      (pool.promoteTx setup call addr tx).pending =
        pool.pending.insert addr ((pool.pendingOf addr).put tx)) ∧
      (pool.promoteTx setup call addr tx).queue = pool.queue := by
  unfold promoteTx
  cases hadd : (pool.pendingOf addr).add tx setup.config.priceBump with
  | none => exact ⟨.inl rfl, rfl⟩
  | some added =>
    obtain ⟨list, old⟩ := added
    obtain ⟨rfl, -⟩ := TxList.add_eq_some hadd
    set promoted := { pool with pending := pool.pending.insert addr ((pool.pendingOf addr).put tx) }
    have hsame : SameLists promoted ((promoted.forgetOld setup old).ensure setup tx) :=
      sameLists_forgetOld.trans sameLists_ensure
    exact ⟨.inr hsame.pending, hsame.queue⟩

variable (setup call) in
/-- A transaction of the index with a nonce that is not pending yet joins the pending list, and is
paid from the pending balance. -/
theorem promoteTx_spec
    (hfresh : ∀ other ∈ (pool.pendingOf addr).txs, other.accountNonce ≠ tx.accountNonce)
    (hall : tx ∈ pool.all) :
    (pool.promoteTx setup call addr tx).pending =
        pool.pending.insert addr ((pool.pendingOf addr).put tx) ∧
      (pool.promoteTx setup call addr tx).queue = pool.queue ∧
      (pool.promoteTx setup call addr tx).all = pool.all ∧
      (pool.promoteTx setup call addr tx).settings = pool.settings ∧
      (pool.promoteTx setup call addr tx).pendingState =
        pool.pendingState.setNonceAndBalance addr ((tx.accountNonce + 1) % 2 ^ 64)
          (pool.pendingState.getBalance addr - tx.cost) := by
  set promoted := { pool with pending := pool.pending.insert addr ((pool.pendingOf addr).put tx) }
    with hpromoted
  have hensure : promoted.ensure setup tx = promoted := if_pos hall
  unfold promoteTx
  rw [TxList.add_of_get_eq_none (TxList.get_eq_none_iff.mpr hfresh)]
  dsimp only [forgetOld]
  rw [← hpromoted, hensure]
  exact ⟨rfl, rfl, rfl, rfl, rfl⟩

/-- Promoting a transaction that was taken off the queue before the rest promotes a waiting one. -/
theorem holding_promoteTx
    (hsound : Holding.Sound Transaction.accountNonce
      { pool.holding setup addr with waiting := tx :: rest }) :
    { (pool.promoteTx setup call addr tx).holding setup addr with waiting := rest } =
      Holding.promote Transaction.accountNonce Transaction.cost (2 ^ 64)
        { pool.holding setup addr with waiting := tx :: rest } tx := by
  have hwaiting : tx ∈ tx :: rest := List.mem_cons_self ..
  obtain ⟨hpending, -, hall, -, hstate⟩ := promoteTx_spec setup call
    (fun other hother ↦ hsound.apart other hother tx hwaiting) (hsound.waiting_known tx hwaiting).1
  unfold Pool.holding Holding.promote
  rw [hsound.waiting_rising.filter_ne, pendingOf_insert hpending, if_pos rfl, hall, hstate]
  simp [TxList.put]

theorem holding_promoteTx_of_ne
    (hfresh : ∀ other ∈ (pool.pendingOf addr).txs, other.accountNonce ≠ tx.accountNonce)
    (hknown : tx ∈ pool.all) (hne : observed ≠ addr) :
    (pool.promoteTx setup call addr tx).holding setup observed = pool.holding setup observed := by
  obtain ⟨hpending, hqueue, hall, -, hstate⟩ := promoteTx_spec setup call hfresh hknown
  apply holding_congr
  · rw [pendingOf_insert hpending, if_neg hne]
  · rw [queueOf_congr hqueue]
  · intro other _
    rw [hall]
  · rw [hstate, ManagedState.getNonce_setNonceAndBalance, if_neg hne]
  · rw [hstate, ManagedState.getBalance_setNonceAndBalance, if_neg hne]

/-- Promoting what was taken off the queue, with consecutive nonces, promotes one waiting
transaction after the other. -/
theorem promoteAll_shifts {terms : Holding.Terms Transaction} {first : ℕ}
    (hsound : Holding.Sound Transaction.accountNonce
      { pool.holding setup addr with waiting := txs ++ rest })
    (hnonces : txs.map Transaction.accountNonce = List.range' first txs.length)
    (hlow : ∀ tx ∈ txs, terms.start ≤ tx.accountNonce)
    (hturn : first ≤ pool.pendingState.getNonce addr ∨
      pool.pendingState.getNonce addr = first % 2 ^ 64) :
    Holding.Shifts Transaction.accountNonce Transaction.cost (2 ^ 64) terms
        { pool.holding setup addr with waiting := txs ++ rest }
        { (pool.promoteAll setup call addr txs).holding setup addr with waiting := rest } ∧
      (pool.promoteAll setup call addr txs).queue = pool.queue ∧
      (pool.promoteAll setup call addr txs).all = pool.all ∧
      (pool.promoteAll setup call addr txs).settings = pool.settings ∧
      ∀ observed, observed ≠ addr →
        (pool.promoteAll setup call addr txs).holding setup observed =
          pool.holding setup observed := by
  induction txs generalizing pool first with
  | nil => exact ⟨.refl, rfl, rfl, rfl, fun _ _ ↦ rfl⟩
  | cons tx txs ih =>
    obtain ⟨hfirst, htail, -⟩ := of_consecutive_cons hnonces
    have hwaiting : tx ∈ (tx :: txs) ++ rest := List.mem_cons_self ..
    have hfresh : ∀ other ∈ (pool.pendingOf addr).txs, other.accountNonce ≠ tx.accountNonce :=
      fun other hother ↦ hsound.apart other hother tx hwaiting
    have hknown : tx ∈ pool.all ∧ setup.account tx = addr := hsound.waiting_known tx hwaiting
    obtain ⟨-, hqueue, hall, hsettings, hstate⟩ := promoteTx_spec setup call hfresh hknown.1
    set promoted := pool.promoteTx setup call addr tx
    have hshifted : { promoted.holding setup addr with waiting := txs ++ rest } =
        Holding.promote Transaction.accountNonce Transaction.cost (2 ^ 64)
          { pool.holding setup addr with waiting := (tx :: txs) ++ rest } tx :=
      holding_promoteTx hsound
    have hshift : Holding.Shift Transaction.accountNonce Transaction.cost (2 ^ 64) terms
        { pool.holding setup addr with waiting := (tx :: txs) ++ rest }
        { promoted.holding setup addr with waiting := txs ++ rest } := by
      rw [hshifted]
      exact .promote hwaiting (hlow tx (List.mem_cons_self ..)) (hfirst ▸ hturn)
    have hnext : promoted.pendingState.getNonce addr = (first + 1) % 2 ^ 64 := by
      rw [hstate, ManagedState.getNonce_setNonceAndBalance, if_pos rfl, hfirst]
    obtain ⟨hshifts, hqueue', hall', hsettings', hothers⟩ := ih (hshift.sound hsound) htail
      (fun other hother ↦ hlow other (List.mem_cons_of_mem tx hother)) (.inr hnext)
    refine ⟨hshifts.head hshift, hqueue'.trans hqueue, hall'.trans hall,
      hsettings'.trans hsettings, fun observed hne ↦ (hothers observed hne).trans ?_⟩
    exact holding_promoteTx_of_ne hfresh hknown.1 hne

/-- Forgetting exactly the waiting transactions that are dropped from a lane. -/
theorem known_forgetAll {known : Set Transaction} {waiting kept dropped : List Transaction}
    (hknown : known = {tx | tx ∈ pool.all ∧ setup.account tx = addr})
    (hdropped : ∀ tx ∈ dropped, tx ∈ waiting) (hkept : ∀ tx ∈ waiting, tx ∈ kept ↔ tx ∉ dropped) :
    {tx | tx ∈ known ∧ (tx ∈ waiting → tx ∈ kept)} =
      {tx | tx ∈ (pool.forgetAll setup dropped).all ∧ setup.account tx = addr} := by
  ext tx
  simp only [hknown, Set.mem_ofPred_eq, mem_all_forgetAll]
  constructor
  · rintro ⟨⟨hall, haccount⟩, hstays⟩
    exact ⟨⟨hall, fun h ↦ (hkept tx (hdropped tx h)).mp (hstays (hdropped tx h)) h⟩, haccount⟩
  · rintro ⟨⟨hall, hnot⟩, haccount⟩
    exact ⟨⟨hall, haccount⟩, fun hwaiting ↦ (hkept tx hwaiting).mpr hnot⟩

/-- Forgetting transactions of one account is not seen from another. -/
theorem holding_forgetAll_of_ne (hne : observed ≠ addr)
    (haccount : ∀ tx ∈ txs, setup.account tx = addr) :
    (pool.forgetAll setup txs).holding setup observed = pool.holding setup observed := by
  have hsame : SameLists pool (pool.forgetAll setup txs) := sameLists_forgetAll
  apply holding_congr
  · rw [pendingOf_congr hsame.pending]
  · rw [queueOf_congr hsame.queue]
  · intro other hother
    rw [mem_all_forgetAll, and_iff_left_iff_imp]
    exact fun _ hmem ↦ hne (hother.symm.trans (haccount other hmem))
  · rw [hsame.pendingState]
  · rw [hsame.pendingState]

/-- Apart from the queue of an account, writing it back changes nothing. -/
theorem setQueue_rest (pool : Pool) (addr : Address) (list : TxList false) :
    (pool.setQueue addr list).pending = pool.pending ∧
      (pool.setQueue addr list).all = pool.all ∧
      (pool.setQueue addr list).pendingState = pool.pendingState ∧
      (pool.setQueue addr list).settings = pool.settings := by
  unfold setQueue
  split_ifs <;> exact ⟨rfl, rfl, rfl, rfl⟩

theorem holding_setQueue_of_ne (hne : observed ≠ addr) (list : TxList false) :
    (pool.setQueue addr list).holding setup observed = pool.holding setup observed := by
  obtain ⟨hpending, hall, hstate, -⟩ := setQueue_rest pool addr list
  apply holding_congr
  · rw [pendingOf_congr hpending]
  · rw [queueOf_setQueue, if_neg hne]
  · intro other _
    rw [hall]
  · rw [hstate]
  · rw [hstate]

/-! ### One account's turn in `promoteExecutables` -/

/-- What an account has while its queue is in hand. -/
def inHand (setup : Setup) (pool : Pool) (addr : Address) (list : TxList false) :
    Holding Transaction :=
  { pool.holding setup addr with waiting := list.txs }

theorem holding_setQueue (list : TxList false) :
    (pool.setQueue addr list).holding setup addr = pool.inHand setup addr list := by
  obtain ⟨hpending, hall, hstate, -⟩ := setQueue_rest pool addr list
  unfold inHand Pool.holding
  rw [queueOf_setQueue, if_pos rfl, pendingOf_congr hpending, hall, hstate]

section Turn

variable {terms : Holding.Terms Transaction} {list kept : TxList false}

/-- A stage of the turn: the lanes shift, and nothing else changes. -/
structure Stage (setup : Setup) (terms : Holding.Terms Transaction) (addr : Address) (pool : Pool)
    (list : TxList false) (after : Pool × TxList false) : Prop where
  shifts : Holding.Shifts Transaction.accountNonce Transaction.cost (2 ^ 64) terms
    (pool.inHand setup addr list) (after.1.inHand setup addr after.2)
  settings : after.1.settings = pool.settings
  elsewhere : ∀ observed, observed ≠ addr →
    after.1.holding setup observed = pool.holding setup observed

theorem Stage.refl : Stage setup terms addr pool list (pool, list) := ⟨.refl, rfl, fun _ _ ↦ rfl⟩

theorem Stage.trans {middle : Pool × TxList false} {after : Pool × TxList false}
    (hfirst : Stage setup terms addr pool list middle)
    (hsecond : Stage setup terms addr middle.1 middle.2 after) :
    Stage setup terms addr pool list after where
  shifts := hfirst.shifts.trans hsecond.shifts
  settings := hsecond.settings.trans hfirst.settings
  elsewhere observed hne := (hsecond.elsewhere observed hne).trans (hfirst.elsewhere observed hne)

theorem stage_forgetAll {dropped : List Transaction}
    (hsound : (pool.inHand setup addr list).Sound Transaction.accountNonce)
    (hsublist : kept.txs.Sublist list.txs) (hdropped : ∀ tx ∈ dropped, tx ∈ list.txs)
    (hkept : ∀ tx ∈ list.txs, tx ∈ kept.txs ↔ tx ∉ dropped) :
    Stage setup terms addr pool list (pool.forgetAll setup dropped, kept) where
  shifts := by
    have hsame : SameLists pool (pool.forgetAll setup dropped) := sameLists_forgetAll
    have hshift : (pool.forgetAll setup dropped).inHand setup addr kept =
        (pool.inHand setup addr list).keepWaiting kept.txs := by
      unfold inHand Pool.holding Holding.keepWaiting
      dsimp only
      rw [known_forgetAll rfl hdropped hkept, pendingOf_congr hsame.pending, hsame.pendingState]
    rw [hshift]
    exact .single (.keepWaiting hsublist)
  settings := sameLists_forgetAll.settings
  elsewhere observed hne := holding_forgetAll_of_ne hne fun tx htx ↦
    (hsound.waiting_known tx (hdropped tx htx)).2

theorem forward_stage (hsound : (pool.inHand setup addr list).Sound Transaction.accountNonce)
    (nonce : ℕ) :
    Stage setup terms addr pool list
      (pool.forgetAll setup (list.forward nonce).2, (list.forward nonce).1) := by
  apply stage_forgetAll hsound
  · exact List.filter_sublist
  · exact fun tx htx ↦ List.mem_of_mem_filter htx
  · intro tx htx
    simp [TxList.forward, TxList.shrink, htx]

theorem filter_stage (hsound : (pool.inHand setup addr list).Sound Transaction.accountNonce)
    (costLimit : ℤ) :
    Stage setup terms addr pool list
      (pool.forgetAll setup (list.filter costLimit).2.1, (list.filter costLimit).1) := by
  have hfiltered := list.filter_spec costLimit
  apply stage_forgetAll hsound hfiltered.sublist
  · exact fun tx htx ↦ ((hfiltered.mem_removed tx).mp htx).1
  · intro tx htx
    constructor
    · intro hkept hremoved
      exact (hfiltered.payable tx hkept).not_gt ((hfiltered.mem_removed tx).mp hremoved).2
    · intro hremoved
      rcases hfiltered.cover tx htx with hkept | hmem | hmem
      · exact hkept
      · exact absurd hmem hremoved
      · rw [hfiltered.loose rfl] at hmem
        exact absurd hmem List.not_mem_nil

theorem dropInvalid_stage (hsound : (pool.inHand setup addr list).Sound Transaction.accountNonce) :
    Stage setup terms addr pool list (pool.dropInvalid setup addr list) := by
  have hforward : Stage setup terms addr pool list _ :=
    forward_stage hsound (pool.currentState.getNonce addr)
  exact hforward.trans (filter_stage (hforward.shifts.sound hsound) _)

theorem le_of_mem_dropInvalid (htx : tx ∈ (pool.dropInvalid setup addr list).2.txs) :
    pool.currentState.getNonce addr ≤ tx.accountNonce := by
  have hmem := (TxList.filter_spec _ _).sublist.subset htx
  simpa using (List.mem_filter.mp hmem).2

variable (call) in
theorem promoteReady_stage (hsound : (pool.inHand setup addr list).Sound Transaction.accountNonce)
    (hlow : ∀ tx ∈ list.txs, terms.start ≤ tx.accountNonce) :
    Stage setup terms addr pool list (pool.promoteReady setup call addr list) := by
  obtain ⟨first, hnonces, hfirst⟩ := list.ready_nonces (pool.pendingState.getNonce addr)
  have hsplit := list.ready_append (pool.pendingState.getNonce addr)
  unfold inHand at hsound
  rw [← hsplit] at hsound hlow
  obtain ⟨hshifts, -, -, hsettings, helsewhere⟩ := promoteAll_shifts hsound hnonces
    (fun tx htx ↦ hlow tx (List.mem_append_left _ htx)) (.inl hfirst)
  refine ⟨?_, hsettings, helsewhere⟩
  unfold inHand
  rw [← hsplit]
  exact hshifts

theorem dropOver_stage (hsound : (pool.inHand setup addr list).Sound Transaction.accountNonce) :
    Stage setup terms addr pool list (pool.dropOver setup addr list) := by
  unfold dropOver
  split_ifs
  · exact .refl
  · apply stage_forgetAll hsound
    · exact List.take_sublist _ _
    · exact fun tx htx ↦ List.mem_of_mem_drop (List.mem_reverse.mp htx)
    · intro tx htx
      have hdisjoint := list.sorted.imp (fun h ↦ h.ne)
      rw [← List.take_append_drop setup.config.accountQueue list.txs] at htx hdisjoint
      have hapart := (List.pairwise_append.mp hdisjoint).2.2
      simp only [TxList.shrink, List.mem_reverse]
      constructor
      · exact fun htake hdrop ↦ hapart tx htake tx hdrop rfl
      · exact fun hdrop ↦ (List.mem_append.mp htx).resolve_right hdrop

variable (call) in
theorem promoteAccount_shifts (hsound : pool.Sound setup)
    (hstart : terms.start = pool.currentState.getNonce addr) :
    Holding.Shifts Transaction.accountNonce Transaction.cost (2 ^ 64) terms
        (pool.holding setup addr) ((pool.promoteAccount setup call addr).holding setup addr) ∧
      (pool.promoteAccount setup call addr).settings = pool.settings ∧
      ∀ observed, observed ≠ addr →
        (pool.promoteAccount setup call addr).holding setup observed =
          pool.holding setup observed := by
  unfold promoteAccount
  cases hlookup : pool.queue.lookup addr with
  | none => exact ⟨.refl, rfl, fun _ _ ↦ rfl⟩
  | some list =>
    have hqueue : pool.queueOf addr = list := by rw [queueOf, hlookup, Option.getD_some]
    have hhand : pool.holding setup addr = pool.inHand setup addr list := by
      unfold inHand Pool.holding
      rw [hqueue]
    have hsound₀ := hhand ▸ hsound addr
    have hinvalid : Stage setup terms addr pool list _ := dropInvalid_stage hsound₀
    have hsound₁ := hinvalid.shifts.sound hsound₀
    have hready : Stage setup terms addr pool list _ := hinvalid.trans
      (promoteReady_stage call hsound₁ fun tx htx ↦ hstart.le.trans (le_of_mem_dropInvalid htx))
    have hover := hready.trans (dropOver_stage (hready.shifts.sound hsound₀))
    refine ⟨?_, ?_, fun observed hne ↦ ?_⟩
    · rw [hhand, holding_setQueue]
      exact hover.shifts
    · exact (setQueue_rest _ _ _).2.2.2.trans hover.settings
    · rw [holding_setQueue_of_ne hne]
      exact hover.elsewhere observed hne

end Turn

/-! ### Removing transactions -/

/-- Apart from the pending list of an account, writing it back changes nothing. -/
theorem setPending_rest (pool : Pool) (addr : Address) (list : TxList true) :
    (pool.setPending addr list).queue = pool.queue ∧
      (pool.setPending addr list).all = pool.all ∧
      (pool.setPending addr list).pendingState = pool.pendingState ∧
      (pool.setPending addr list).settings = pool.settings := by
  unfold setPending
  split_ifs <;> exact ⟨rfl, rfl, rfl, rfl⟩

theorem lowerNonce_spec (pool : Pool) (addr : Address) (nonce : ℕ) :
    (pool.lowerNonce addr nonce).pending = pool.pending ∧
      (pool.lowerNonce addr nonce).queue = pool.queue ∧
      (pool.lowerNonce addr nonce).all = pool.all ∧
      (pool.lowerNonce addr nonce).settings = pool.settings ∧
      (∀ observed, (pool.lowerNonce addr nonce).pendingState.getBalance observed =
        pool.pendingState.getBalance observed) ∧
      ∀ observed, (pool.lowerNonce addr nonce).pendingState.getNonce observed =
        if observed = addr ∧ nonce < pool.pendingState.getNonce observed then nonce
        else pool.pendingState.getNonce observed := by
  unfold lowerNonce
  split_ifs with hlower
  · refine ⟨rfl, rfl, rfl, rfl, fun observed ↦ by simp, fun observed ↦ ?_⟩
    rw [ManagedState.getNonce_setNonce]
    by_cases hsame : observed = addr
    · subst hsame
      simp [hlower]
    · simp [hsame]
  · refine ⟨rfl, rfl, rfl, rfl, fun observed ↦ rfl, fun observed ↦ ?_⟩
    rw [if_neg]
    rintro ⟨rfl, hlt⟩
    exact hlower hlt

/-- Transactions behind a removed one are queued, unless there are none before it. -/
theorem postpone_spec (list : TxList true) (haccount : ∀ tx ∈ txs, setup.account tx = addr)
    (hfresh : ∀ tx ∈ txs, ∀ other ∈ (pool.queueOf addr).txs, tx.accountNonce ≠ other.accountNonce)
    (hdistinct : txs.Pairwise (·.accountNonce ≠ ·.accountNonce))
    (hall : ∀ tx ∈ txs, tx ∈ pool.all) :
    (∀ observed, ((pool.postpone setup list txs).queueOf observed).txs =
        if observed = addr then
          if list.txs = [] then (pool.queueOf addr).txs
          else putAll Transaction.accountNonce txs (pool.queueOf addr).txs
        else (pool.queueOf observed).txs) ∧
      (pool.postpone setup list txs).pending = pool.pending ∧
      (pool.postpone setup list txs).pendingState = pool.pendingState ∧
      (pool.postpone setup list txs).settings = pool.settings ∧
      ∀ other, other ∈ (pool.postpone setup list txs).all ↔ other ∈ pool.all := by
  unfold postpone
  by_cases hempty : list.txs = []
  · rw [if_pos (TxList.empty_iff.mpr hempty)]
    refine ⟨fun observed ↦ ?_, rfl, rfl, rfl, fun _ ↦ Iff.rfl⟩
    split_ifs with hsame
    · rw [hsame]
    · rfl
  · rw [if_neg fun h ↦ hempty (TxList.empty_iff.mp h)]
    obtain ⟨hqueues, hpending, hstate, hsettings, hmem⟩ := enqueueAll_spec haccount hfresh hdistinct
    refine ⟨fun observed ↦ ?_, hpending, hstate, hsettings, fun other ↦ ?_⟩
    · rw [if_neg hempty]
      exact hqueues observed
    · rw [hmem, or_iff_right_of_imp (hall other)]

/-- A pending transaction has left: those before it stay, those behind it are queued unless there
are none before it, and the pending nonce is lowered to its nonce. -/
structure Withdrawn (setup : Setup) (pool : Pool) (tx : Transaction) (after : Pool) : Prop where
  settings : after.settings = pool.settings
  pending : ∀ observed, (after.pendingOf observed).txs =
    if observed = setup.account tx then
      (pool.holding setup observed).front Transaction.accountNonce tx
    else (pool.pendingOf observed).txs
  queue : ∀ observed, (after.queueOf observed).txs =
    if observed = setup.account tx then
      if (pool.holding setup observed).front Transaction.accountNonce tx = [] then
        (pool.queueOf observed).txs
      else putAll Transaction.accountNonce
        ((pool.holding setup observed).behind Transaction.accountNonce tx)
        (pool.queueOf observed).txs
    else (pool.queueOf observed).txs
  all : ∀ other, other ∈ after.all ↔ other ∈ pool.all ∧ other ≠ tx
  nonce : ∀ observed, after.pendingState.getNonce observed =
    if observed = setup.account tx ∧ tx.accountNonce < pool.pendingState.getNonce observed then
      tx.accountNonce
    else pool.pendingState.getNonce observed
  balance : ∀ observed,
    after.pendingState.getBalance observed = pool.pendingState.getBalance observed

/-- A pending transaction that left was removed from the ready lane of its account. -/
theorem Withdrawn.holding (hwithdrawn : Withdrawn setup pool tx after)
    (hoverlaps : (pool.pendingOf (setup.account tx)).overlaps tx = true) :
    after.holding setup observed =
      if observed = setup.account tx then
        (pool.holding setup observed).remove Transaction.accountNonce tx
      else pool.holding setup observed := by
  split_ifs with hsame
  · subst hsame
    have hexists : ∃ other ∈ (pool.holding setup (setup.account tx)).ready,
        other.accountNonce = tx.accountNonce := TxList.overlaps_iff.mp hoverlaps
    rw [Holding.remove, if_pos hexists]
    ext1
    · exact (hwithdrawn.pending _).trans (if_pos rfl)
    · exact (hwithdrawn.queue _).trans (if_pos rfl)
    · ext other
      show other ∈ after.all ∧ _ ↔ (other ∈ pool.all ∧ _) ∧ other ∉ ({tx} : Set Transaction)
      rw [hwithdrawn.all, Set.mem_singleton_iff]
      exact and_right_comm
    · refine (hwithdrawn.nonce _).trans ?_
      simp only [true_and]
      rfl
    · exact hwithdrawn.balance _
  · apply holding_congr
    · rw [hwithdrawn.pending, if_neg hsame]
    · rw [hwithdrawn.queue, if_neg hsame]
    · intro other hother
      rw [hwithdrawn.all, and_iff_left_iff_imp]
      rintro - rfl
      exact hsame hother.symm
    · rw [hwithdrawn.nonce, if_neg fun h ↦ hsame h.1]
    · exact hwithdrawn.balance observed

theorem withdrawn_removeTx (hsound : pool.Sound setup) (hall : tx ∈ pool.all)
    (hoverlaps : (pool.pendingOf (setup.account tx)).overlaps tx = true) :
    Withdrawn setup pool tx (pool.removeTx setup tx) := by
  obtain ⟨⟨list, invalids⟩, hremove⟩ := TxList.exists_remove hoverlaps
  obtain ⟨hlist, hinvalids⟩ := TxList.remove_strict hremove
  set addr := setup.account tx with haddr
  have hmem : ∀ other ∈ invalids, other ∈ (pool.pendingOf addr).txs ∧
      tx.accountNonce < other.accountNonce := by
    intro other hother
    rw [hinvalids] at hother
    simpa using hother
  have hknown (other : Transaction) (hother : other ∈ invalids) :
      other ∈ pool.all ∧ setup.account other = addr :=
    (hsound addr).ready_known other (hmem other hother).1
  set removed := (pool.forget setup tx).setPending addr list with hremoved
  obtain ⟨hqueue₁, hall₁, hstate₁, hsettings₁⟩ := setPending_rest (pool.forget setup tx) addr list
  have hqueue₁ : removed.queueOf = pool.queueOf := queueOf_congr hqueue₁
  have hall₁ (other : Transaction) : other ∈ removed.all ↔ other ∈ pool.all ∧ other ≠ tx := by
    rw [hall₁, mem_all_forget]
  have hfresh : ∀ other ∈ invalids, ∀ queued ∈ (removed.queueOf addr).txs,
      other.accountNonce ≠ queued.accountNonce := by
    rw [hqueue₁]
    exact fun other hother queued hqueued ↦
      (hsound addr).apart other (hmem other hother).1 queued hqueued
  have hdistinct : invalids.Pairwise (·.accountNonce ≠ ·.accountNonce) := by
    rw [hinvalids]
    exact ((pool.pendingOf addr).sorted.filter _).imp fun h ↦ h.ne
  have hindexed : ∀ other ∈ invalids, other ∈ removed.all := by
    intro other hother
    refine (hall₁ other).mpr ⟨(hknown other hother).1, ?_⟩
    rintro rfl
    exact (hmem other hother).2.false
  obtain ⟨hqueue₂, hpending₂, hstate₂, hsettings₂, hall₂⟩ := postpone_spec list
    (fun other hother ↦ (hknown other hother).2) hfresh hdistinct hindexed
  obtain ⟨hpending₃, hqueue₃, hall₃, hsettings₃, hbalance₃, hnonce₃⟩ :=
    lowerNonce_spec (removed.postpone setup list invalids) addr tx.accountNonce
  have hafter : pool.removeTx setup tx =
      (removed.postpone setup list invalids).lowerNonce addr tx.accountNonce := by
    unfold removeTx
    rw [if_neg (not_not.mpr hall)]
    dsimp only
    rw [← haddr, hremove]
  have hstate : (removed.postpone setup list invalids).pendingState = pool.pendingState :=
    hstate₂.trans hstate₁
  rw [hafter]
  constructor
  · exact hsettings₃.trans (hsettings₂.trans hsettings₁)
  · intro observed
    rw [pendingOf_congr hpending₃, pendingOf_congr hpending₂, hremoved, pendingOf_setPending]
    split_ifs with hsame
    · rw [hlist, hsame]
      rfl
    · rfl
  · intro observed
    rw [queueOf_congr hqueue₃, hqueue₂, hqueue₁, hlist, hinvalids]
    by_cases hsame : observed = addr
    · rw [hsame]
      rfl
    · rw [if_neg hsame, if_neg hsame]
  · intro other
    rw [hall₃, hall₂, hall₁]
  · intro observed
    rw [hnonce₃, hstate]
  · intro observed
    rw [hbalance₃, hstate]

/-- Writing the queue of an account back as it is changes nothing. -/
theorem holding_setQueue_self : (pool.setQueue addr (pool.queueOf addr)).holding setup observed =
    pool.holding setup observed := by
  obtain ⟨hpending, hall, hstate, -⟩ := setQueue_rest pool addr (pool.queueOf addr)
  apply holding_congr
  · rw [pendingOf_congr hpending]
  · rw [queueOf_setQueue]
    split_ifs with hsame
    · rw [hsame]
    · rfl
  · intro other _
    rw [hall]
  · rw [hstate]
  · rw [hstate]

/-- Without a pending transaction of its nonce, a known transaction leaves the index and the queue
loses the nonce. -/
theorem exists_queue_removeTx (hall : tx ∈ pool.all)
    (hoverlaps : (pool.pendingOf (setup.account tx)).overlaps tx = false) :
    ∃ list : TxList false,
      list.txs = (pool.queueOf (setup.account tx)).txs.filter (·.accountNonce ≠ tx.accountNonce) ∧
      (pool.removeTx setup tx).settings = pool.settings ∧
      ∀ observed, (pool.removeTx setup tx).holding setup observed =
        ((pool.forget setup tx).setQueue (setup.account tx) list).holding setup observed := by
  unfold removeTx
  rw [if_neg (not_not.mpr hall)]
  dsimp only
  rw [TxList.remove_eq_none_iff.mpr hoverlaps]
  dsimp only
  cases hqueue : (pool.queueOf (setup.account tx)).remove tx with
  | some removed =>
    exact ⟨removed.1, TxList.remove_loose hqueue, (setQueue_rest _ _ _).2.2.2, fun _ ↦ rfl⟩
  | none =>
    have hmissing := TxList.remove_eq_none_iff.mp hqueue
    exact ⟨pool.queueOf (setup.account tx), (TxList.filter_of_not_overlaps hmissing).symm, rfl,
      fun _ ↦ holding_setQueue_self.symm⟩

theorem holding_forget_of_ne (hne : observed ≠ setup.account tx) :
    (pool.forget setup tx).holding setup observed = pool.holding setup observed := by
  apply holding_congr
  · rfl
  · rfl
  · intro other hother
    rw [mem_all_forget, and_iff_left_iff_imp]
    rintro - rfl
    exact hne hother.symm
  · rfl
  · rfl

theorem removeTx_of_queued (hall : tx ∈ pool.all)
    (hoverlaps : (pool.pendingOf (setup.account tx)).overlaps tx = false) :
    (pool.removeTx setup tx).settings = pool.settings ∧
    ∀ observed, (pool.removeTx setup tx).holding setup observed =
      if observed = setup.account tx then
        (pool.holding setup observed).remove Transaction.accountNonce tx
      else pool.holding setup observed := by
  obtain ⟨list, htxs, hsettings, hholding⟩ := exists_queue_removeTx hall hoverlaps
  refine ⟨hsettings, fun observed ↦ (hholding observed).trans ?_⟩
  split_ifs with hsame
  · subst hsame
    have hexists : ¬∃ other ∈ (pool.holding setup (setup.account tx)).ready,
        other.accountNonce = tx.accountNonce :=
      fun h ↦ Bool.eq_false_iff.mp hoverlaps (TxList.overlaps_iff.mpr h)
    rw [holding_setQueue, Holding.remove, if_neg hexists]
    unfold inHand Pool.holding
    dsimp only
    rw [htxs]
    congr 1
    ext other
    simp only [Set.mem_ofPred_eq, mem_all_forget, Set.mem_sdiff, Set.mem_singleton_iff]
    exact and_right_comm
  · rw [holding_setQueue_of_ne hsame]
    exact holding_forget_of_ne hsame

theorem removeTx_spec (hsound : pool.Sound setup) (hall : tx ∈ pool.all) :
    (pool.removeTx setup tx).settings = pool.settings ∧
    ∀ observed, (pool.removeTx setup tx).holding setup observed =
      if observed = setup.account tx then
        (pool.holding setup observed).remove Transaction.accountNonce tx
      else pool.holding setup observed := by
  cases hoverlaps : (pool.pendingOf (setup.account tx)).overlaps tx with
  | true =>
    have hwithdrawn := withdrawn_removeTx hsound hall hoverlaps
    exact ⟨hwithdrawn.settings, fun _ ↦ hwithdrawn.holding hoverlaps⟩
  | false => exact removeTx_of_queued hall hoverlaps

theorem removeTx_of_not_mem (hall : tx ∉ pool.all) : pool.removeTx setup tx = pool := if_pos hall

theorem withdrawn_dropLast {front : List Transaction} (hsound : pool.Sound setup)
    (hlast : (pool.pendingOf addr).txs = front ++ [tx]) :
    Withdrawn setup pool tx (pool.dropLast setup addr) := by
  have hmem : tx ∈ (pool.pendingOf addr).txs := by simp [hlast]
  obtain rfl := ((hsound addr).ready_known tx hmem).2.symm
  have hfront := (hsound (setup.account tx)).front_last hlast
  have hbehind := (hsound (setup.account tx)).behind_last hlast
  obtain ⟨kept, hkept, hafter⟩ : ∃ kept : TxList true, kept.txs = front ∧
      pool.dropLast setup (setup.account tx) =
        (forget setup
          { pool with pending := pool.pending.insert (setup.account tx) kept } tx).lowerNonce
          (setup.account tx) tx.accountNonce := by
    have hlen : (pool.pendingOf (setup.account tx)).len - 1 = front.length := by
      simp [TxList.len, hlast]
    refine ⟨((pool.pendingOf (setup.account tx)).cap front.length).1, ?_, ?_⟩
    · simp [TxList.cap, TxList.shrink, hlast]
    · unfold dropLast
      dsimp only
      rw [hlen]
      simp [TxList.cap, hlast]
  obtain ⟨hpending, hqueue, hall, hsettings, hbalance, hnonce⟩ := lowerNonce_spec
    (forget setup { pool with pending := pool.pending.insert (setup.account tx) kept } tx)
    (setup.account tx) tx.accountNonce
  rw [hafter]
  constructor
  · exact hsettings
  · intro observed
    rw [pendingOf_congr hpending, pendingOf_insert rfl]
    split_ifs with hsame
    · rw [hkept, hsame, hfront]
    · rfl
  · intro observed
    rw [queueOf_congr hqueue]
    split_ifs with hsame hempty
    · rfl
    · rw [hsame, hbehind]
      rfl
    · rfl
  · intro other
    rw [hall, mem_all_forget]
  · exact hnonce
  · exact hbalance

variable (setup) in
theorem dropLast_of_nil (hnil : (pool.pendingOf addr).txs = []) :
    (pool.dropLast setup addr).settings = pool.settings ∧
      ∀ observed, (pool.dropLast setup addr).holding setup observed =
        pool.holding setup observed := by
  have hafter : pool.dropLast setup addr =
      { pool with pending := pool.pending.insert addr ((pool.pendingOf addr).cap 0).1 } := by
    unfold dropLast
    simp [TxList.len, TxList.cap, hnil]
  rw [hafter]
  refine ⟨rfl, fun observed ↦ ?_⟩
  apply holding_congr
  · rw [pendingOf_insert rfl]
    split_ifs with hsame
    · rw [hsame, hnil]
      rfl
    · rfl
  · rfl
  · exact fun _ _ ↦ Iff.rfl
  · rfl
  · rfl

end Moves

end Pool

end LkChain.TxPool
