import LkChain.TxPool.Holdings

/-!
# The operations as shifts of lanes

Between two resets every operation of the pool is, for each account, a sequence of shifts of its
lanes. Whether a transaction may be removed on the way, and whether a removal may leave others
behind in the index only, depends on the operation; both are recorded.
-/

namespace LkChain.TxPool

open Foundation Lanes Ethereum State Transactions

/-- What the shifts of an operation may do, for all accounts. -/
structure Rules where
  admitted : Transaction → Prop
  removing : Prop
  stranding : Prop

def Rules.terms (rules : Rules) (pool : Pool) (addr : Address) : Holding.Terms Transaction where
  start := pool.currentState.getNonce addr
  admitted := rules.admitted
  removing := rules.removing
  stranding := rules.stranding

namespace Pool

/-- The lanes of every account shift, on one state of the chain. -/
structure Moves (setup : Setup) (rules : Rules) (pool after : Pool) : Prop where
  currentState : after.currentState = pool.currentState
  shifts : ∀ addr, Holding.Shifts Transaction.accountNonce Transaction.cost (2 ^ 64)
    (rules.terms pool addr) (pool.holding setup addr) (after.holding setup addr)

/-- From a sound pool on, the lanes shift. -/
def Refines (setup : Setup) (rules : Rules) (pool after : Pool) : Prop :=
  pool.Sound setup → Moves setup rules pool after

variable {setup : Setup} {call : Call} {rules : Rules} {pool middle after : Pool}
  {addr : Address} {tx : Transaction} {txs : List Transaction} {isLocal : Bool}

theorem Moves.refl (pool : Pool) : Moves setup rules pool pool := ⟨rfl, fun _ ↦ .refl⟩

theorem Moves.trans (hfirst : Moves setup rules pool middle)
    (hsecond : Moves setup rules middle after) : Moves setup rules pool after where
  currentState := hsecond.currentState.trans hfirst.currentState
  shifts addr := by
    have hterms : rules.terms middle addr = rules.terms pool addr := by
      unfold Rules.terms
      rw [hfirst.currentState]
    exact (hfirst.shifts addr).trans (hterms ▸ hsecond.shifts addr)

theorem Moves.sound (hmoves : Moves setup rules pool after) (hsound : pool.Sound setup) :
    after.Sound setup := fun addr ↦ (hmoves.shifts addr).sound (hsound addr)

theorem moves_of_holding (hstate : after.currentState = pool.currentState)
    (hholding : ∀ addr, after.holding setup addr = pool.holding setup addr) :
    Moves setup rules pool after :=
  ⟨hstate, fun addr ↦ by rw [hholding addr]; exact .refl⟩

theorem moves_of_account (hstate : after.currentState = pool.currentState)
    (hshifts : Holding.Shifts Transaction.accountNonce Transaction.cost (2 ^ 64)
      (rules.terms pool addr) (pool.holding setup addr) (after.holding setup addr))
    (helsewhere : ∀ observed, observed ≠ addr →
      after.holding setup observed = pool.holding setup observed) :
    Moves setup rules pool after where
  currentState := hstate
  shifts observed := by
    by_cases hsame : observed = addr
    · subst hsame
      exact hshifts
    · rw [helsewhere observed hsame]
      exact .refl

theorem Refines.refl (pool : Pool) : Refines setup rules pool pool := fun _ ↦ .refl pool

theorem Refines.trans (hfirst : Refines setup rules pool middle)
    (hsecond : Refines setup rules middle after) : Refines setup rules pool after :=
  fun hsound ↦ (hfirst hsound).trans (hsecond ((hfirst hsound).sound hsound))

theorem refines_foldl {Item : Type} {act : Pool → Item → Pool} {items : List Item}
    (hact : ∀ pool item, item ∈ items → Refines setup rules pool (act pool item)) :
    Refines setup rules pool (items.foldl act pool) := by
  induction items generalizing pool with
  | nil => exact .refl pool
  | cons item items ih =>
    exact (hact pool item (List.mem_cons_self ..)).trans
      (ih fun pool other hother ↦ hact pool other (List.mem_cons_of_mem item hother))

theorem currentState_of_settings (hsettings : after.settings = pool.settings) :
    after.currentState = pool.currentState := congrArg Settings.currentState hsettings

/-! ## Promotion and removal -/

theorem promoteAccount_refines :
    Refines setup rules pool (pool.promoteAccount setup call addr) := by
  intro hsound
  have hstart : (rules.terms pool addr).start = pool.currentState.getNonce addr := rfl
  obtain ⟨hshifts, hsettings, helsewhere⟩ := promoteAccount_shifts call hsound hstart
  exact moves_of_account (currentState_of_settings hsettings) hshifts helsewhere

/-- Removing the transaction leaves others in the index that are in no list. -/
def Strands (setup : Setup) (pool : Pool) (tx : Transaction) : Prop :=
  tx ∈ pool.all ∧
    (pool.holding setup (setup.account tx)).Strands Transaction.accountNonce tx

theorem removeTx_refines (hremoving : tx ∈ pool.all → rules.removing)
    (hstranding : pool.Strands setup tx → rules.stranding) :
    Refines setup rules pool (pool.removeTx setup tx) := by
  intro hsound
  by_cases hall : tx ∈ pool.all
  · obtain ⟨hsettings, hholding⟩ := removeTx_spec hsound hall
    apply moves_of_account (currentState_of_settings hsettings)
    · rw [hholding, if_pos rfl]
      exact .single (.remove (hremoving hall) ⟨hall, rfl⟩ fun h ↦ hstranding ⟨hall, h⟩)
    · intro observed hne
      rw [hholding, if_neg hne]
  · rw [removeTx_of_not_mem hall]
    exact .refl pool

/-- One of several removals leaves others behind. -/
def StrandsAny (setup : Setup) : Pool → List Transaction → Prop
  | _, [] => False
  | pool, tx :: txs => pool.Strands setup tx ∨ StrandsAny setup (pool.removeTx setup tx) txs

theorem removeAll_refines (hremoving : rules.removing)
    (hstranding : StrandsAny setup pool txs → rules.stranding) :
    Refines setup rules pool (pool.removeAll setup txs) := by
  induction txs generalizing pool with
  | nil => exact .refl pool
  | cons tx txs ih =>
    exact (removeTx_refines (fun _ ↦ hremoving) fun h ↦ hstranding (.inl h)).trans
      (ih fun h ↦ hstranding (.inr h))

/-- Queued transactions of one account can be removed whatever the rules are. -/
theorem removeAll_waiting_refines (hwaiting : ∀ tx ∈ txs, tx ∈ (pool.queueOf addr).txs)
    (hdistinct : txs.Pairwise (·.accountNonce ≠ ·.accountNonce)) :
    Refines setup rules pool (pool.removeAll setup txs) := by
  induction txs generalizing pool with
  | nil => exact .refl pool
  | cons tx txs ih =>
    intro hsound
    obtain ⟨hhead, htail⟩ := List.pairwise_cons.mp hdistinct
    have htx : tx ∈ (pool.holding setup addr).waiting := hwaiting tx (List.mem_cons_self ..)
    obtain ⟨hall, rfl⟩ := (hsound addr).waiting_known tx htx
    obtain ⟨hsettings, hholding⟩ := removeTx_spec hsound hall
    have hremoved : (pool.removeTx setup tx).holding setup (setup.account tx) =
        (pool.holding setup (setup.account tx)).keepWaiting
          ((pool.queueOf (setup.account tx)).txs.filter (·.accountNonce ≠ tx.accountNonce)) := by
      rw [hholding, if_pos rfl]
      exact Holding.remove_of_waiting (hsound _) htx
    have hmoves : Moves setup rules pool (pool.removeTx setup tx) := by
      apply moves_of_account (currentState_of_settings hsettings)
      · rw [hremoved]
        exact .single (.keepWaiting List.filter_sublist)
      · intro observed hne
        rw [hholding, if_neg hne]
    apply hmoves.trans
    refine ih (fun other hother ↦ ?_) htail (hmoves.sound hsound)
    have hwaits : other ∈ ((pool.removeTx setup tx).holding setup (setup.account tx)).waiting := by
      rw [hremoved]
      exact List.mem_filter.mpr ⟨hwaiting other (List.mem_cons_of_mem tx hother),
        decide_eq_true (hhead other hother).symm⟩
    exact hwaits

theorem dropLast_refines (hremoving : rules.removing) :
    Refines setup rules pool (pool.dropLast setup addr) := by
  intro hsound
  rcases List.eq_nil_or_concat' (pool.pendingOf addr).txs with hnil | ⟨front, tx, hlast⟩
  · obtain ⟨hsettings, hholding⟩ := dropLast_of_nil setup hnil
    exact moves_of_holding (currentState_of_settings hsettings) hholding
  · have hwithdrawn := withdrawn_dropLast hsound hlast
    have hmem : tx ∈ (pool.pendingOf addr).txs := by simp [hlast]
    obtain ⟨hall, rfl⟩ := (hsound addr).ready_known tx hmem
    have hoverlaps : (pool.pendingOf (setup.account tx)).overlaps tx = true :=
      TxList.overlaps_iff.mpr ⟨tx, hmem, rfl⟩
    apply moves_of_account (currentState_of_settings hwithdrawn.settings)
    · rw [hwithdrawn.holding hoverlaps, if_pos rfl]
      refine .single (.remove hremoving ⟨hall, rfl⟩ fun hstrands ↦ absurd ?_ hstrands.2.2)
      -- nothing comes behind the last transaction
      have hrising := (pool.pendingOf (setup.account tx)).sorted
      rw [hlast, Rising, List.pairwise_append] at hrising
      show (pool.pendingOf (setup.account tx)).txs.filter _ = []
      rw [hlast]
      apply List.filter_eq_nil_iff.mpr
      intro other hother
      rcases List.mem_append.mp hother with hother | hother
      · simpa using (hrising.2.2 other hother tx (by simp)).le
      · simp [List.mem_singleton.mp hother]
    · intro observed hne
      rw [hwithdrawn.holding hoverlaps, if_neg hne]

/-! ## `promoteExecutables` -/

theorem promoteAccounts_refines {accounts : List Address} :
    Refines setup rules pool (pool.promoteAccounts setup call accounts) :=
  refines_foldl fun _ _ _ ↦ promoteAccount_refines

theorem dropLasts_refines {addrs : List Address} (hremoving : rules.removing) :
    Refines setup rules pool (pool.dropLasts setup addrs) :=
  refines_foldl fun _ _ _ ↦ dropLast_refines hremoving

theorem reduce_refines {offenders : List Address} {account : Address}
    {threshold fuel pending : ℕ} (hremoving : rules.removing) :
    Refines setup rules pool (reduce setup offenders account threshold fuel pending pool).1 := by
  induction fuel generalizing pending pool with
  | zero => exact .refl pool
  | succ fuel ih =>
    rw [reduce]
    split_ifs
    · exact (dropLasts_refines hremoving).trans ih
    · exact .refl pool

theorem equalize_refines {spammers offenders : List Address} {pending : ℕ}
    (hremoving : rules.removing) :
    Refines setup rules pool (equalize setup spammers offenders pending pool).1 := by
  induction spammers generalizing offenders pending pool with
  | nil => exact .refl pool
  | cons offender spammers ih =>
    rw [equalize]
    split_ifs
    · cases offenders.getLast? with
      | none => exact ih
      | some last => exact (reduce_refines hremoving).trans ih
    · exact .refl pool

theorem capPending_refines
    (hremoving : setup.config.globalSlots < total pool.pending → rules.removing) :
    Refines setup rules pool (pool.capPending setup call) := by
  unfold capPending
  dsimp only
  split_ifs with hover
  · have hequalize : Refines setup rules pool
        (equalize setup (pool.spammers setup call) [] (total pool.pending) pool).1 :=
      equalize_refines (hremoving hover)
    split
    · exact hequalize
    · exact hequalize.trans (reduce_refines (hremoving hover))
  · exact .refl pool

theorem dropQueued_refines {addresses : List Address} {drop : ℕ} :
    Refines setup rules pool (dropQueued setup addresses drop pool) := by
  induction addresses generalizing drop pool with
  | nil => exact .refl pool
  | cons addr addresses ih =>
    have hdistinct : (pool.queueOf addr).txs.Pairwise (·.accountNonce ≠ ·.accountNonce) :=
      (pool.queueOf addr).sorted.imp fun h ↦ h.ne
    have hreverse : ((pool.queueOf addr).txs.reverse.take drop).Pairwise
        (·.accountNonce ≠ ·.accountNonce) :=
      (List.pairwise_reverse.mpr (hdistinct.imp fun h ↦ h.symm)).sublist (List.take_sublist _ _)
    rw [dropQueued]
    dsimp only
    split_ifs
    · exact .refl pool
    · exact (removeAll_waiting_refines (fun _ h ↦ h) hdistinct).trans ih
    · exact (removeAll_waiting_refines
        (fun tx htx ↦ List.mem_reverse.mp (List.mem_of_mem_take htx)) hreverse).trans ih

theorem capQueue_refines : Refines setup rules pool (pool.capQueue setup call) := by
  unfold capQueue
  dsimp only
  split_ifs
  · exact dropQueued_refines
  · exact .refl pool

/-- The pending transactions of all accounts exceed their slots, once promotions are done. -/
def Overflows (setup : Setup) (call : Call) (pool : Pool) (accounts : Option (List Address)) :
    Prop :=
  setup.config.globalSlots <
    total (pool.promoteAccounts setup call (pool.promotable call accounts)).pending

theorem promoteExecutables_refines {accounts : Option (List Address)}
    (hremoving : pool.Overflows setup call accounts → rules.removing) :
    Refines setup rules pool (pool.promoteExecutables setup call accounts) :=
  (promoteAccounts_refines.trans (capPending_refines hremoving)).trans capQueue_refines

/-! ## Adding transactions -/

/-- `place` refuses a transaction and changes nothing, or it replaces a pending transaction, or it
enters the queue. -/
theorem place_cases (setup : Setup) (pool : Pool) (tx : Transaction) (isLocal : Bool) :
    pool.place setup tx isLocal = (pool, .error .replaceUnderpriced) ∨
    ((pool.pendingOf (setup.account tx)).overlaps tx = true ∧
      Replaced setup pool tx (pool.place setup tx isLocal).1 ∧
      (pool.place setup tx isLocal).2 = .ok true) ∨
    ((pool.pendingOf (setup.account tx)).overlaps tx = false ∧
      ∃ queued, Enqueued setup pool tx queued ∧ pool.place setup tx isLocal =
        (queued.markLocal (setup.account tx) isLocal,
          .ok ((pool.queueOf (setup.account tx)).get tx.accountNonce).isSome)) := by
  unfold place
  dsimp only
  cases hoverlaps : (pool.pendingOf (setup.account tx)).overlaps tx with
  | true =>
    rw [if_pos rfl]
    cases hadd : (pool.pendingOf (setup.account tx)).add tx setup.config.priceBump with
    | none => exact .inl rfl
    | some added =>
      obtain ⟨list, old⟩ := added
      obtain ⟨rfl, rfl⟩ := TxList.add_eq_some hadd
      set replaced := { pool with
        pending :=
          pool.pending.insert (setup.account tx) ((pool.pendingOf (setup.account tx)).put tx) }
      set old := (pool.pendingOf (setup.account tx)).get tx.accountNonce with hold
      have hsame : SameLists replaced ((replaced.forgetOld setup old).remember setup tx) :=
        sameLists_forgetOld.trans sameLists_remember
      refine .inr (.inl ⟨rfl, ⟨hsame.pending, hsame.queue, hsame.pendingState, hsame.settings,
        fun other ↦ ?_⟩, ?_⟩)
      · rw [mem_all_remember, mem_all_forgetOld]
      · exact congrArg Except.ok hoverlaps
  | false =>
    rw [if_neg Bool.false_ne_true]
    rcases enqueueTx_cases setup pool tx with hrefused | ⟨henqueued, hanswer⟩
    · rw [hrefused]
      exact .inl rfl
    · refine .inr (.inr ⟨rfl, (pool.enqueueTx setup tx).1, henqueued, ?_⟩)
      rw [← Prod.mk.eta (p := pool.enqueueTx setup tx), hanswer]

theorem markLocal_rest (pool : Pool) (addr : Address) (isLocal : Bool) :
    (pool.markLocal addr isLocal).currentState = pool.currentState ∧
      (pool.markLocal addr isLocal).holding setup = pool.holding setup := by
  unfold markLocal
  split_ifs <;> exact ⟨rfl, rfl⟩

theorem moves_markLocal (hmoves : Moves setup rules pool after) :
    Moves setup rules pool (after.markLocal addr isLocal) := by
  obtain ⟨hstate, hholding⟩ := markLocal_rest after addr isLocal
  exact hmoves.trans (moves_of_holding hstate fun observed ↦ congrFun hholding observed)

/-- A transaction whose nonce is not behind the pending one is placed. -/
theorem place_refines (hadmitted : rules.admitted tx)
    (hlate : pool.pendingState.getNonce (setup.account tx) ≤ tx.accountNonce) :
    Refines setup rules pool (pool.place setup tx isLocal).1 := by
  intro hsound
  rcases place_cases setup pool tx isLocal with hrefused | ⟨hoverlaps, hreplaced, -⟩ |
    ⟨hoverlaps, queued, henqueued, hplace⟩
  · rw [hrefused]
    exact .refl pool
  · apply moves_of_account (currentState_of_settings hreplaced.settings)
    · rw [hreplaced.holding hsound, if_pos rfl]
      exact .single (.replace hadmitted hlate (TxList.overlaps_iff.mp hoverlaps))
    · intro observed hne
      rw [hreplaced.holding hsound, if_neg hne]
  · rw [hplace]
    apply moves_markLocal
    apply moves_of_account (currentState_of_settings henqueued.settings)
    · rw [henqueued.holding hsound, if_pos rfl]
      refine .single (.enqueue hadmitted fun other hother hnonce ↦ ?_)
      rw [TxList.overlaps_iff.mpr ⟨other, hother, hnonce⟩] at hoverlaps
      cases hoverlaps
    · intro observed hne
      rw [henqueued.holding hsound, if_neg hne]

/-- A valid transaction has the next nonce of its sender, who can pay for it. -/
theorem validateTx_ok (hvalid : pool.validateTx setup call tx isLocal = .ok ()) :
    tx.accountNonce = pool.pendingState.getNonce (setup.account tx) ∧
      tx.cost ≤ pool.pendingState.getBalance (setup.account tx) := by
  unfold validateTx at hvalid
  unfold Setup.account
  cases hsender : setup.sender tx with
  | error _ =>
    rw [hsender] at hvalid
    cases hvalid
  | ok sender =>
    rw [hsender] at hvalid
    dsimp only at hvalid ⊢
    simp only [Results.ite_error_eq_ok_iff] at hvalid
    obtain ⟨-, -, -, hlow, hhigh, hbalance, -⟩ := hvalid
    exact ⟨by omega, by omega⟩

theorem moves_priced {priced : PricedList} :
    Moves setup rules pool { pool with priced := priced } :=
  moves_of_holding rfl fun _ ↦ rfl

/-- `add` refuses a transaction, and changes the price heap at most; or the transaction is valid and
is placed, after a full pool has made room for it. -/
theorem add_cases (setup : Setup) (call : Call) (pool : Pool) (tx : Transaction) (isLocal : Bool) :
    (∃ priced error, pool.add setup call tx isLocal =
      ({ pool with priced := priced }, .error error)) ∨
    (tx ∉ pool.all ∧ pool.validateTx setup call tx isLocal = .ok () ∧
      ((pool.isFull setup = false ∧ pool.add setup call tx isLocal = pool.place setup tx isLocal) ∨
        (pool.isFull setup = true ∧ (pool.underpriced setup tx).2 = false ∧
          pool.add setup call tx isLocal = (pool.makeRoom setup tx).place setup tx isLocal))) := by
  unfold add
  by_cases hknown : tx ∈ pool.all
  · exact .inl ⟨pool.priced, .known, if_pos hknown⟩
  · rw [if_neg hknown]
    cases hvalid : pool.validateTx setup call tx isLocal with
    | error error => exact .inl ⟨pool.priced, error, rfl⟩
    | ok _ =>
      cases hfull : pool.isFull setup with
      | false => exact .inr ⟨hknown, rfl, .inl ⟨rfl, rfl⟩⟩
      | true =>
        dsimp only
        rw [if_pos rfl]
        cases hunder : (pool.underpriced setup tx).2 with
        | true => exact .inl ⟨(pool.underpriced setup tx).1.priced, .underpriced, rfl⟩
        | false => exact .inr ⟨hknown, rfl, .inr ⟨rfl, rfl, rfl⟩⟩

theorem add_of_not_full (call : Call) (tx : Transaction) (isLocal : Bool)
    (hroom : pool.isFull setup = false) :
    (∃ priced error, pool.add setup call tx isLocal =
      ({ pool with priced := priced }, .error error)) ∨
      (pool.validateTx setup call tx isLocal = .ok () ∧
        pool.add setup call tx isLocal = pool.place setup tx isLocal) := by
  rcases add_cases setup call pool tx isLocal with hrefused | ⟨-, hvalid, ⟨-, hadd⟩ | ⟨hfull, -⟩⟩
  · exact .inl hrefused
  · exact .inr ⟨hvalid, hadd⟩
  · exact absurd hfull (Bool.eq_false_iff.mp hroom)

/-- `addTx` is `add`, with a promotion after it if a transaction has come in. -/
theorem addTx_pool (setup : Setup) (call : Call) (pool : Pool) (tx : Transaction) (isLocal : Bool) :
    (pool.addTx setup call tx isLocal).1 = (pool.add setup call tx isLocal).1 ∨
      (pool.addTx setup call tx isLocal).1 =
        (pool.add setup call tx isLocal).1.promoteExecutables setup call
        (some [setup.account tx]) := by
  unfold addTx
  generalize pool.add setup call tx isLocal = added
  obtain ⟨after, answer⟩ := added
  cases answer with
  | error error => exact .inl rfl
  | ok replace =>
    cases replace with
    | false => exact .inr rfl
    | true => exact .inl rfl

/-- `addTxs` adds all transactions, with one promotion after them if some have come in. -/
theorem addTxs_pool (setup : Setup) (call : Call) (pool : Pool) (txs : List Transaction)
    (isLocal : Bool) :
    (pool.addTxs setup call txs isLocal).1 = (addAll setup call isLocal txs pool).1 ∨
      (pool.addTxs setup call txs isLocal).1 =
        (addAll setup call isLocal txs pool).1.promoteExecutables setup call
          (some (call.order 3 (addAll setup call isLocal txs pool).2.2)) := by
  unfold addTxs
  dsimp only
  split_ifs
  · exact .inl rfl
  · exact .inr rfl

/-- Making room for the transaction leaves others in the index that are in no list. -/
def AddStrands (setup : Setup) (call : Call) (pool : Pool) (tx : Transaction) (isLocal : Bool) :
    Prop :=
  tx ∉ pool.all ∧ pool.validateTx setup call tx isLocal = .ok () ∧ pool.isFull setup = true ∧
    (pool.underpriced setup tx).2 = false ∧
    StrandsAny setup ((pool.underpriced setup tx).1.discard setup).1
      ((pool.underpriced setup tx).1.discard setup).2

theorem getNonce_removeAll_le (hsound : pool.Sound setup) :
    (pool.removeAll setup txs).pendingState.getNonce addr ≤ pool.pendingState.getNonce addr := by
  induction txs generalizing pool with
  | nil => exact le_rfl
  | cons tx txs ih =>
    show ((pool.removeTx setup tx).removeAll setup txs).pendingState.getNonce addr ≤ _
    by_cases hall : tx ∈ pool.all
    · have hmoves : Moves setup ⟨fun _ ↦ True, True, True⟩ pool (pool.removeTx setup tx) :=
        removeTx_refines (fun _ ↦ trivial) (fun _ ↦ trivial) hsound
      have hholding := (removeTx_spec hsound hall).2 addr
      refine (ih (hmoves.sound hsound)).trans ?_
      show ((pool.removeTx setup tx).holding setup addr).next ≤ (pool.holding setup addr).next
      rw [hholding]
      split_ifs
      · exact Holding.next_remove_le
      · exact le_rfl
    · rw [removeTx_of_not_mem hall]
      exact ih hsound

theorem add_refines (hadmitted : rules.admitted tx)
    (hremoving : pool.isFull setup = true → rules.removing)
    (hstranding : pool.AddStrands setup call tx isLocal → rules.stranding) :
    Refines setup rules pool (pool.add setup call tx isLocal).1 := by
  intro hsound
  rcases add_cases setup call pool tx isLocal with ⟨priced, error, hadd⟩ |
    ⟨hknown, hvalid, ⟨hroom, hadd⟩ | ⟨hfull, hunder, hadd⟩⟩
  · rw [hadd]
    exact moves_priced
  · rw [hadd]
    exact place_refines hadmitted (validateTx_ok hvalid).1.ge hsound
  · have hdiscard : Moves setup rules pool ((pool.underpriced setup tx).1.discard setup).1 :=
      moves_priced.trans moves_priced
    have hmade : Moves setup rules pool (pool.makeRoom setup tx) := hdiscard.trans
      (removeAll_refines (hremoving hfull)
        (fun h ↦ hstranding ⟨hknown, hvalid, hfull, hunder, h⟩) (hdiscard.sound hsound))
    rw [hadd]
    refine hmade.trans (place_refines hadmitted ?_ (hmade.sound hsound))
    calc (pool.makeRoom setup tx).pendingState.getNonce (setup.account tx)
      _ ≤ ((pool.underpriced setup tx).1.discard setup).1.pendingState.getNonce
        (setup.account tx) :=
        getNonce_removeAll_le (hdiscard.sound hsound)
      _ = pool.pendingState.getNonce (setup.account tx) := rfl
      _ = tx.accountNonce := (validateTx_ok hvalid).1.symm

theorem addTx_refines (hadmitted : rules.admitted tx)
    (hremoving : pool.isFull setup = true ∨
      (pool.add setup call tx isLocal).1.Overflows setup call (some [setup.account tx]) →
        rules.removing)
    (hstranding : pool.AddStrands setup call tx isLocal → rules.stranding) :
    Refines setup rules pool (pool.addTx setup call tx isLocal).1 := by
  have hadd : Refines setup rules pool (pool.add setup call tx isLocal).1 :=
    add_refines hadmitted (fun h ↦ hremoving (.inl h)) hstranding
  rcases addTx_pool setup call pool tx isLocal with hafter | hafter
  · rw [hafter]
    exact hadd
  · rw [hafter]
    exact hadd.trans (promoteExecutables_refines fun h ↦ hremoving (.inr h))

/-- Whether adding one of several transactions strands others. -/
def AddsStrand (setup : Setup) (call : Call) (isLocal : Bool) : List Transaction → Pool → Prop
  | [], _ => False
  | tx :: txs, pool => pool.AddStrands setup call tx isLocal ∨
    AddsStrand setup call isLocal txs (pool.add setup call tx isLocal).1

/-- Whether the pool is full when one of several transactions is added. -/
def FillsUp (setup : Setup) (call : Call) (isLocal : Bool) : List Transaction → Pool → Prop
  | [], _ => False
  | tx :: txs, pool => pool.isFull setup = true ∨
    FillsUp setup call isLocal txs (pool.add setup call tx isLocal).1

theorem addAll_cons (tx : Transaction) (txs : List Transaction) :
    (addAll setup call isLocal (tx :: txs) pool).1 =
      (addAll setup call isLocal txs (pool.add setup call tx isLocal).1).1 := by
  rw [addAll]
  generalize pool.add setup call tx isLocal = added
  obtain ⟨after, answer⟩ := added
  cases answer <;> rfl

theorem addAll_refines (hadmitted : ∀ tx ∈ txs, rules.admitted tx)
    (hremoving : FillsUp setup call isLocal txs pool → rules.removing)
    (hstranding : AddsStrand setup call isLocal txs pool → rules.stranding) :
    Refines setup rules pool (addAll setup call isLocal txs pool).1 := by
  induction txs generalizing pool with
  | nil => exact .refl pool
  | cons tx txs ih =>
    rw [addAll_cons]
    exact (add_refines (hadmitted tx (List.mem_cons_self ..)) (fun h ↦ hremoving (.inl h))
        fun h ↦ hstranding (.inl h)).trans
      (ih (fun other hother ↦ hadmitted other (List.mem_cons_of_mem tx hother))
        (fun h ↦ hremoving (.inr h)) fun h ↦ hstranding (.inr h))

theorem addTxs_refines (hadmitted : ∀ tx ∈ txs, rules.admitted tx)
    (hremoving : FillsUp setup call isLocal txs pool ∨
      (addAll setup call isLocal txs pool).1.Overflows setup call
        (some (call.order 3 (addAll setup call isLocal txs pool).2.2)) → rules.removing)
    (hstranding : AddsStrand setup call isLocal txs pool → rules.stranding) :
    Refines setup rules pool (pool.addTxs setup call txs isLocal).1 := by
  have hadd : Refines setup rules pool (addAll setup call isLocal txs pool).1 :=
    addAll_refines hadmitted (fun h ↦ hremoving (.inl h)) hstranding
  rcases addTxs_pool setup call pool txs isLocal with hafter | hafter
  · rw [hafter]
    exact hadd
  · rw [hafter]
    exact hadd.trans (promoteExecutables_refines fun h ↦ hremoving (.inr h))

/-! ## Further operations -/

theorem setGasPrice_refines {price : ℕ}
    (hremoving : (pool.reprice setup price).2 ≠ [] → rules.removing)
    (hstranding : StrandsAny setup (pool.reprice setup price).1 (pool.reprice setup price).2 →
      rules.stranding) :
    Refines setup rules pool (pool.setGasPrice setup price) := by
  have hpriced : Refines setup rules pool (pool.reprice setup price).1 :=
    fun _ ↦ moves_of_holding rfl fun _ ↦ rfl
  refine hpriced.trans ?_
  show Refines setup rules (pool.reprice setup price).1
    ((pool.reprice setup price).1.removeAll setup (pool.reprice setup price).2)
  by_cases hnone : (pool.reprice setup price).2 = []
  · rw [hnone]
    exact .refl _
  · exact removeAll_refines (hremoving hnone) hstranding

theorem evict_refines : Refines setup rules pool (pool.evict setup call) := by
  apply refines_foldl
  intro pool addr _
  unfold evictAccount
  split_ifs
  · exact removeAll_waiting_refines (fun _ h ↦ h) ((pool.queueOf addr).sorted.imp fun h ↦ h.ne)
  · exact .refl pool

end Pool

end LkChain.TxPool
