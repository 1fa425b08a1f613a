import LkChain.Foundation.Cells
import LkChain.TxPool.Resets
import Mathlib.Algebra.Order.BigOperators.Group.List
import Mathlib.Algebra.Order.Group.Nat

/-!
# No empty list is left

A list that loses its last transaction is deleted from its map. The fairness cap alone writes a list
back without looking: it takes one transaction after the other from the longest lists, all of which
have the same length then, and stops above the slots of an account. With at least one slot none of
them becomes empty.
-/

namespace LkChain.TxPool

open Foundation Lanes Ethereum State Transactions

/-- No list of a map is empty. -/
def Occupied {strict : Bool} (lists : Lists strict) : Prop :=
  ∀ addr list, lists.lookup addr = some list → list.txs ≠ []

section Maps

variable {strict : Bool} {lists : Lists strict} {list : TxList strict} {addr : Address}

theorem Occupied.insert (hoccupied : Occupied lists) (hlist : list.txs ≠ []) :
    Occupied (lists.insert addr list) :=
  Cells.forall_lookup_insert hlist fun observed _ found hfound ↦ hoccupied observed found hfound

theorem Occupied.erase (hoccupied : Occupied lists) : Occupied (lists.erase addr) := by
  intro observed found hfound
  by_cases hsame : observed = addr
  · rw [hsame, AList.lookup_erase] at hfound
    cases hfound
  · rw [AList.lookup_erase_ne hsame] at hfound
    exact hoccupied observed found hfound

end Maps

namespace Pool

/-- No pending and no queued list is empty. -/
structure Filled (pool : Pool) : Prop where
  pending : Occupied pool.pending
  queue : Occupied pool.queue

variable {setup : Setup} {call : Call} {pool middle after : Pool} {addr observed : Address}
  {tx : Transaction} {txs : List Transaction} {isLocal : Bool}

/-- A change of the pool leaves no list empty if there was none before. -/
def KeepsFilled (pool after : Pool) : Prop := pool.Filled → after.Filled

theorem KeepsFilled.trans (hfirst : KeepsFilled pool middle) (hsecond : KeepsFilled middle after) :
    KeepsFilled pool after := fun hfilled ↦ hsecond (hfirst hfilled)

theorem keepsFilled_of_lists (hpending : after.pending = pool.pending)
    (hqueue : after.queue = pool.queue) : KeepsFilled pool after :=
  fun hfilled ↦ ⟨hpending ▸ hfilled.pending, hqueue ▸ hfilled.queue⟩

theorem SameLists.keepsFilled (hsame : SameLists pool after) : KeepsFilled pool after :=
  keepsFilled_of_lists hsame.pending hsame.queue

theorem keepsFilled_foldl {Item : Type} {act : Pool → Item → Pool} {items : List Item}
    (hact : ∀ pool item, KeepsFilled pool (act pool item)) :
    KeepsFilled pool (items.foldl act pool) := by
  induction items generalizing pool with
  | nil => exact id
  | cons item items ih => exact (hact pool item).trans ih

/-! ## Queueing, promoting and removing -/

theorem keepsFilled_setPending (list : TxList true) :
    KeepsFilled pool (pool.setPending addr list) := by
  intro hfilled
  unfold setPending
  split_ifs with hempty
  · exact ⟨hfilled.pending.erase, hfilled.queue⟩
  · exact ⟨hfilled.pending.insert fun hnil ↦ hempty (TxList.empty_iff.mpr hnil), hfilled.queue⟩

theorem keepsFilled_setQueue (list : TxList false) : KeepsFilled pool
    (pool.setQueue addr list) := by
  intro hfilled
  unfold setQueue
  split_ifs with hempty
  · exact ⟨hfilled.pending, hfilled.queue.erase⟩
  · exact ⟨hfilled.pending, hfilled.queue.insert fun hnil ↦ hempty (TxList.empty_iff.mpr hnil)⟩

theorem Enqueued.keepsFilled (henqueued : Enqueued setup pool tx after) :
    KeepsFilled pool after := by
  intro hfilled
  constructor
  · rw [henqueued.pending]
    exact hfilled.pending
  · rw [henqueued.queue]
    exact hfilled.queue.insert put_ne_nil

theorem keepsFilled_enqueueTx : KeepsFilled pool (pool.enqueueTx setup tx).1 := by
  rcases enqueueTx_cases setup pool tx with hrefused | ⟨henqueued, -⟩
  · rw [hrefused]
    exact id
  · exact henqueued.keepsFilled

theorem keepsFilled_enqueueAll : KeepsFilled pool (pool.enqueueAll setup txs) :=
  keepsFilled_foldl fun _ _ ↦ keepsFilled_enqueueTx

theorem keepsFilled_promoteTx : KeepsFilled pool (pool.promoteTx setup call addr tx) := by
  obtain ⟨hpending | hpending, hqueue⟩ := promoteTx_lists setup call pool addr tx
  · exact keepsFilled_of_lists hpending hqueue
  · intro hfilled
    refine ⟨?_, hqueue ▸ hfilled.queue⟩
    rw [hpending]
    exact hfilled.pending.insert put_ne_nil

theorem keepsFilled_promoteAccount : KeepsFilled pool (pool.promoteAccount setup call addr) := by
  unfold promoteAccount
  cases pool.queue.lookup addr with
  | none => exact id
  | some list =>
    have hinvalid : KeepsFilled pool (pool.dropInvalid setup addr list).1 :=
      sameLists_forgetAll.keepsFilled.trans sameLists_forgetAll.keepsFilled
    have hready (pool : Pool) (list : TxList false) :
        KeepsFilled pool (pool.promoteReady setup call addr list).1 :=
      keepsFilled_foldl fun _ _ ↦ keepsFilled_promoteTx
    have hover (pool : Pool) (list : TxList false) :
        KeepsFilled pool (pool.dropOver setup addr list).1 := by
      unfold dropOver
      split_ifs
      · exact id
      · exact sameLists_forgetAll.keepsFilled
    exact ((hinvalid.trans (hready _ _)).trans (hover _ _)).trans (keepsFilled_setQueue _)

theorem keepsFilled_lowerNonce (nonce : ℕ) : KeepsFilled pool (pool.lowerNonce addr nonce) := by
  obtain ⟨hpending, hqueue, -⟩ := lowerNonce_spec pool addr nonce
  exact keepsFilled_of_lists hpending hqueue

theorem keepsFilled_removeTx : KeepsFilled pool (pool.removeTx setup tx) := by
  have hforgotten : KeepsFilled pool (pool.forget setup tx) := sameLists_forget.keepsFilled
  unfold removeTx
  by_cases hunknown : tx ∉ pool.all
  · rw [if_pos hunknown]
    exact id
  · rw [if_neg hunknown]
    dsimp only
    cases (pool.pendingOf (setup.account tx)).remove tx with
    | some removed =>
      have hpostpone (pool : Pool) : KeepsFilled pool
        (pool.postpone setup removed.1 removed.2) := by
        unfold postpone
        split_ifs
        · exact id
        · exact keepsFilled_enqueueAll
      exact ((hforgotten.trans (keepsFilled_setPending removed.1)).trans (hpostpone _)).trans
        (keepsFilled_lowerNonce _)
    | none =>
      dsimp only
      cases (pool.queueOf (setup.account tx)).remove tx with
      | some removed => exact hforgotten.trans (keepsFilled_setQueue _)
      | none => exact hforgotten

theorem keepsFilled_removeAll : KeepsFilled pool (pool.removeAll setup txs) :=
  keepsFilled_foldl fun _ _ ↦ keepsFilled_removeTx

theorem keepsFilled_capQueue : KeepsFilled pool (pool.capQueue setup call) := by
  have hdrop (addresses : List Address) (drop : ℕ) (pool : Pool) :
      KeepsFilled pool (dropQueued setup addresses drop pool) := by
    induction addresses generalizing drop pool with
    | nil => exact id
    | cons addr addresses ih =>
      rw [dropQueued]
      dsimp only
      split_ifs
      · exact id
      · exact keepsFilled_removeAll.trans (ih _ _)
      · exact keepsFilled_removeAll.trans (ih _ _)
  unfold capQueue
  dsimp only
  split_ifs
  · exact hdrop _ _ _
  · exact id

/-! ## The fairness cap -/

theorem dropLast_lists (setup : Setup) (pool : Pool) (addr : Address) :
    (pool.dropLast setup addr).pending = pool.pending.insert addr
        ((pool.pendingOf addr).cap ((pool.pendingOf addr).len - 1)).1 ∧
      (pool.dropLast setup addr).queue = pool.queue := by
  have hdrop (dropped : List Transaction) (pool : Pool) :
      (dropped.foldl (fun pool tx ↦ (pool.forget setup tx).lowerNonce addr tx.accountNonce)
          pool).pending = pool.pending ∧
        (dropped.foldl (fun pool tx ↦ (pool.forget setup tx).lowerNonce addr tx.accountNonce)
          pool).queue = pool.queue := by
    induction dropped generalizing pool with
    | nil => exact ⟨rfl, rfl⟩
    | cons tx dropped ih =>
      obtain ⟨hpending, hqueue, -⟩ :=
        lowerNonce_spec (pool.forget setup tx) addr tx.accountNonce
      obtain ⟨hpending', hqueue'⟩ := ih ((pool.forget setup tx).lowerNonce addr tx.accountNonce)
      exact ⟨hpending'.trans hpending, hqueue'.trans hqueue⟩
  exact hdrop _ _

theorem len_dropLast (setup : Setup) (pool : Pool) (addr observed : Address) :
    ((pool.dropLast setup addr).pendingOf observed).len =
      if observed = addr then (pool.pendingOf observed).len - 1
      else (pool.pendingOf observed).len := by
  rw [pendingOf_insert (dropLast_lists setup pool addr).1]
  split_ifs with hsame
  · subst hsame
    simp [TxList.cap, TxList.shrink, TxList.len]
  · rfl

theorem keepsFilled_dropLast (hlong : 2 ≤ (pool.pendingOf addr).len) :
    KeepsFilled pool (pool.dropLast setup addr) := by
  intro hfilled
  obtain ⟨hpending, hqueue⟩ := dropLast_lists setup pool addr
  refine ⟨?_, hqueue ▸ hfilled.queue⟩
  rw [hpending]
  apply hfilled.pending.insert
  rw [← List.length_pos_iff_ne_nil]
  unfold TxList.len at hlong
  simp only [TxList.cap, TxList.shrink, TxList.len, List.length_take]
  omega

/-- The lists of the accounts have one length. -/
def Level (pool : Pool) (addrs : List Address) (length : ℕ) : Prop :=
  ∀ addr ∈ addrs, (pool.pendingOf addr).len = length

variable (setup) in
theorem dropLasts_spec {addrs : List Address} {length : ℕ} (hnodup : addrs.Nodup)
    (hlevel : pool.Level addrs (length + 1)) (hlength : 0 < length) (hfilled : pool.Filled) :
    (pool.dropLasts setup addrs).Filled ∧ (pool.dropLasts setup addrs).Level addrs length ∧
      ∀ observed ∉ addrs, ((pool.dropLasts setup addrs).pendingOf observed).len =
        (pool.pendingOf observed).len := by
  induction addrs generalizing pool with
  | nil => exact ⟨hfilled, by simp [Level], fun _ _ ↦ rfl⟩
  | cons addr addrs ih =>
    obtain ⟨hnot, hnodup⟩ := List.nodup_cons.mp hnodup
    have hself := hlevel addr (List.mem_cons_self ..)
    have hlevel' : (pool.dropLast setup addr).Level addrs (length + 1) := by
      intro other hother
      rw [len_dropLast, if_neg (ne_of_mem_of_not_mem hother hnot)]
      exact hlevel other (List.mem_cons_of_mem addr hother)
    obtain ⟨hfilled', hlevels, hothers⟩ :=
      ih hnodup hlevel' (keepsFilled_dropLast (by omega) hfilled)
    refine ⟨hfilled', fun other hother ↦ ?_, fun observed hobserved ↦ ?_⟩
    · rcases List.mem_cons.mp hother with rfl | hother
      · refine (hothers other hnot).trans ?_
        rw [len_dropLast, if_pos rfl, hself]
        rfl
      · exact hlevels other hother
    · rw [List.mem_cons, not_or] at hobserved
      obtain ⟨hne, hobserved⟩ := hobserved
      refine (hothers observed hobserved).trans ?_
      rw [len_dropLast, if_neg hne]

variable (setup) in
/-- Reducing lists of one length leaves them with one length, none of them empty. If there are still
too many transactions, the threshold is reached. -/
theorem reduce_spec {offenders : List Address} {account : Address} {threshold length : ℕ}
    (fuel pending : ℕ) (hnodup : offenders.Nodup) (haccount : account ∈ offenders)
    (hthreshold : 0 < threshold) (hfuel : pending ≤ fuel) (hlevel : pool.Level offenders length)
    (hfilled : pool.Filled) :
    (reduce setup offenders account threshold fuel pending pool).1.Filled ∧
      (∃ level,
        (reduce setup offenders account threshold fuel pending pool).1.Level offenders level ∧
        (setup.config.globalSlots <
          (reduce setup offenders account threshold fuel pending pool).2 → level ≤ threshold) ∧
        (threshold ≤ length → threshold ≤ level)) ∧
      ∀ observed ∉ offenders,
        ((reduce setup offenders account threshold fuel pending pool).1.pendingOf observed).len =
          (pool.pendingOf observed).len := by
  induction fuel generalizing pending pool length with
  | zero =>
    refine ⟨hfilled, ⟨length, hlevel, fun hover ↦ ?_, id⟩, fun _ _ ↦ rfl⟩
    exact absurd (hover.trans_le hfuel) (Nat.not_lt_zero _)
  | succ fuel ih =>
    rw [reduce]
    by_cases hturn : setup.config.globalSlots < pending ∧ threshold < (pool.pendingOf account).len
    · rw [if_pos hturn]
      have hpositive : 0 < offenders.length := List.length_pos_of_mem haccount
      have hlength := hlevel account haccount
      have hlevel' : pool.Level offenders (length - 1 + 1) := by
        rw [Nat.sub_add_cancel (by omega)]
        exact hlevel
      obtain ⟨hfilled', hlower, hothers⟩ :=
        dropLasts_spec setup hnodup hlevel' (by omega) hfilled
      obtain ⟨hfilled'', ⟨level, hlevels, hreached, habove⟩, hothers'⟩ :=
        ih (pending - offenders.length) (by omega) hlower hfilled'
      exact ⟨hfilled'', ⟨level, hlevels, hreached, fun _ ↦ habove (by omega)⟩,
        fun observed hobserved ↦ (hothers' observed hobserved).trans (hothers observed hobserved)⟩
    · rw [if_neg hturn]
      refine ⟨hfilled, ⟨length, hlevel, fun hover ↦ ?_, id⟩, fun _ _ ↦ rfl⟩
      rw [← hlevel account haccount]
      exact not_lt.mp fun h ↦ hturn ⟨hover, h⟩

theorem reduce_of_le {offenders : List Address} {account : Address} {threshold fuel pending : ℕ}
    (hroom : ¬setup.config.globalSlots < pending) :
    reduce setup offenders account threshold fuel pending pool = (pool, pending) := by
  cases fuel with
  | zero => rfl
  | succ fuel => rw [reduce, if_neg fun h ↦ hroom h.1]

/-- Taking the accounts in turn, the longest list first, keeps the lists of those taken at one
length as long as there are too many transactions. -/
theorem equalize_spec {spammers offenders : List Address} {pending : ℕ}
    (hnodup : (offenders ++ spammers).Nodup)
    (hsorted : spammers.Pairwise fun a b ↦ (pool.pendingOf b).len ≤ (pool.pendingOf a).len)
    (hlong : ∀ addr ∈ spammers, 0 < (pool.pendingOf addr).len)
    (hlevel : setup.config.globalSlots < pending → ∃ length, pool.Level offenders length ∧
      ∀ addr ∈ spammers, (pool.pendingOf addr).len ≤ length)
    (hfilled : pool.Filled) :
    (equalize setup spammers offenders pending pool).1.Filled ∧
      (equalize setup spammers offenders pending pool).2.2.Nodup ∧
      (setup.config.globalSlots < (equalize setup spammers offenders pending pool).2.1 →
        ∃ length, (equalize setup spammers offenders pending pool).1.Level
          (equalize setup spammers offenders pending pool).2.2 length) := by
  induction spammers generalizing offenders pending pool with
  | nil =>
    rw [List.append_nil] at hnodup
    refine ⟨hfilled, hnodup, fun hover ↦ ?_⟩
    obtain ⟨length, hlength, -⟩ := hlevel hover
    exact ⟨length, hlength⟩
  | cons offender spammers ih =>
    obtain ⟨hhead, htail⟩ := List.pairwise_cons.mp hsorted
    rw [equalize]
    by_cases hover : setup.config.globalSlots < pending
    · rw [if_pos hover]
      cases hlast : offenders.getLast? with
      | none =>
        rw [List.getLast?_eq_none_iff] at hlast
        subst hlast
        refine ih hnodup htail (fun addr haddr ↦ hlong addr (List.mem_cons_of_mem _ haddr))
          (fun _ ↦ ⟨(pool.pendingOf offender).len, by simp [Level], hhead⟩) hfilled
      | some last =>
        obtain ⟨length, hlength, hbelow⟩ := hlevel hover
        have hdisjoint := List.nodup_append.mp hnodup
        have hnot {addr : Address} (haddr : addr ∈ offender :: spammers) : addr ∉ offenders :=
          fun hmem ↦ hdisjoint.2.2 addr hmem addr haddr rfl
        obtain ⟨hfilled', ⟨level, hlevel', hreached, habove⟩, hothers⟩ :=
          reduce_spec setup pending pending hdisjoint.1 (List.mem_of_getLast? hlast)
            (hlong offender (List.mem_cons_self ..)) le_rfl hlength hfilled
        have hsame {addr : Address} (haddr : addr ∈ offender :: spammers) :=
          hothers addr (hnot haddr)
        apply ih
        · simpa using hnodup
        · refine htail.imp_of_mem fun {a b} ha hb hle ↦ ?_
          rw [hsame (List.mem_cons_of_mem _ ha), hsame (List.mem_cons_of_mem _ hb)]
          exact hle
        · intro addr haddr
          rw [hsame (List.mem_cons_of_mem _ haddr)]
          exact hlong addr (List.mem_cons_of_mem _ haddr)
        · -- still too many: all lists have come down to the length of the next one
          intro hover'
          refine ⟨(pool.pendingOf offender).len, fun addr haddr ↦ ?_, fun addr haddr ↦ ?_⟩
          · rcases List.mem_append.mp haddr with haddr | haddr
            · exact (hlevel' addr haddr).trans (le_antisymm (hreached hover')
                (habove (hbelow offender (List.mem_cons_self ..))))
            · rw [List.mem_singleton.mp haddr]
              exact hsame (List.mem_cons_self ..)
          · rw [hsame (List.mem_cons_of_mem _ haddr)]
            exact hhead addr haddr
        · exact hfilled'
    · rw [if_neg hover]
      exact ⟨hfilled, (List.nodup_append.mp hnodup).1, fun h ↦ absurd h hover⟩

/-- The accounts above their slots come once each, the longest list first. -/
theorem spammers_spec (setup : Setup) (call : Call) (pool : Pool) :
    (pool.spammers setup call).Nodup ∧
      ((pool.spammers setup call).Pairwise fun a b ↦
        (pool.pendingOf b).len ≤ (pool.pendingOf a).len) ∧
      ∀ addr ∈ pool.spammers setup call, 0 < (pool.pendingOf addr).len := by
  have hperm := List.perm_insertionSort
    (fun a b ↦ (pool.pendingOf b).len ≤ (pool.pendingOf a).len)
    ((call.order 1 pool.pending.keys).filter fun addr ↦
      !pool.locals.contains addr && setup.config.accountSlots < (pool.pendingOf addr).len)
  refine ⟨?_, ?_, fun addr haddr ↦ ?_⟩
  · exact hperm.nodup_iff.mpr
      (((call.order_perm 1 _).nodup_iff.mpr pool.pending.keys_nodup).filter _)
  · have : Std.Total fun a b ↦ (pool.pendingOf b).len ≤ (pool.pendingOf a).len :=
      ⟨fun a b ↦ le_total _ _⟩
    have : IsTrans Address fun a b ↦ (pool.pendingOf b).len ≤ (pool.pendingOf a).len :=
      ⟨fun a b c hab hbc ↦ hbc.trans hab⟩
    exact List.pairwise_insertionSort _ _
  · have hlong := (List.mem_filter.mp (hperm.mem_iff.mp haddr)).2
    simp only [Bool.and_eq_true, decide_eq_true_eq] at hlong
    omega

theorem keepsFilled_capPending (hslots : 0 < setup.config.accountSlots) :
    KeepsFilled pool (pool.capPending setup call) := by
  intro hfilled
  unfold capPending
  dsimp only
  split_ifs
  · obtain ⟨hnodup, hsorted, hlong⟩ := spammers_spec setup call pool
    have hlevel : setup.config.globalSlots < total pool.pending →
        ∃ length, pool.Level [] length ∧
          ∀ addr ∈ pool.spammers setup call, (pool.pendingOf addr).len ≤ length := by
      refine fun _ ↦ ⟨((pool.spammers setup call).map fun addr ↦ (pool.pendingOf addr).len).sum,
        fun _ h ↦ absurd h List.not_mem_nil, fun addr haddr ↦ ?_⟩
      exact List.single_le_sum (fun _ _ ↦ Nat.zero_le _) _ (List.mem_map_of_mem haddr)
    have hequalized := equalize_spec hnodup hsorted hlong hlevel hfilled
    generalize equalize setup (pool.spammers setup call) [] (total pool.pending) pool = result
      at hequalized
    obtain ⟨equalized, pending, offenders⟩ := result
    obtain ⟨hfilled', hnodup', hlevel'⟩ := hequalized
    dsimp only at hfilled' hnodup' hlevel' ⊢
    cases hlast : offenders.getLast? with
    | none => exact hfilled'
    | some last =>
      by_cases hover : setup.config.globalSlots < pending
      · obtain ⟨length, hlength⟩ := hlevel' hover
        exact (reduce_spec setup pending pending hnodup' (List.mem_of_getLast? hlast) hslots le_rfl
          hlength hfilled').1
      · dsimp only
        rw [reduce_of_le hover]
        exact hfilled'
  · exact hfilled

theorem keepsFilled_promoteExecutables {accounts : Option (List Address)}
    (hslots : 0 < setup.config.accountSlots) :
    KeepsFilled pool (pool.promoteExecutables setup call accounts) := by
  have haccounts : KeepsFilled pool
      (pool.promoteAccounts setup call (pool.promotable call accounts)) :=
    keepsFilled_foldl fun _ _ ↦ keepsFilled_promoteAccount
  exact (haccounts.trans (keepsFilled_capPending hslots)).trans keepsFilled_capQueue

/-! ## The operations -/

theorem keepsFilled_place : KeepsFilled pool (pool.place setup tx isLocal).1 := by
  rcases place_cases setup pool tx isLocal with hrefused | ⟨-, hreplaced, -⟩ |
    ⟨-, queued, henqueued, hplace⟩
  · rw [hrefused]
    exact id
  · intro hfilled
    constructor
    · rw [hreplaced.pending]
      exact hfilled.pending.insert put_ne_nil
    · rw [hreplaced.queue]
      exact hfilled.queue
  · have hmark : KeepsFilled queued (queued.markLocal (setup.account tx) isLocal) := by
      unfold markLocal
      split_ifs
      · exact keepsFilled_of_lists rfl rfl
      · exact id
    rw [hplace]
    exact henqueued.keepsFilled.trans hmark

theorem keepsFilled_add : KeepsFilled pool (pool.add setup call tx isLocal).1 := by
  rcases add_cases setup call pool tx isLocal with ⟨priced, error, hadd⟩ |
    ⟨-, -, ⟨-, hadd⟩ | ⟨-, -, hadd⟩⟩
  · rw [hadd]
    exact keepsFilled_of_lists rfl rfl
  · rw [hadd]
    exact keepsFilled_place
  · have hdiscard : KeepsFilled pool ((pool.underpriced setup tx).1.discard setup).1 :=
      keepsFilled_of_lists rfl rfl
    rw [hadd]
    exact (hdiscard.trans keepsFilled_removeAll).trans keepsFilled_place

theorem keepsFilled_addTx (hslots : 0 < setup.config.accountSlots) :
    KeepsFilled pool (pool.addTx setup call tx isLocal).1 := by
  have hadd : KeepsFilled pool (pool.add setup call tx isLocal).1 := keepsFilled_add
  rcases addTx_pool setup call pool tx isLocal with hafter | hafter
  · rw [hafter]
    exact hadd
  · rw [hafter]
    exact hadd.trans (keepsFilled_promoteExecutables hslots)

theorem keepsFilled_addTxs (hslots : 0 < setup.config.accountSlots) :
    KeepsFilled pool (pool.addTxs setup call txs isLocal).1 := by
  have hadd (pool : Pool) : KeepsFilled pool (addAll setup call isLocal txs pool).1 := by
    induction txs generalizing pool with
    | nil => exact id
    | cons tx txs ih =>
      rw [addAll_cons]
      exact keepsFilled_add.trans (ih _)
  rcases addTxs_pool setup call pool txs isLocal with hafter | hafter
  · rw [hafter]
    exact hadd pool
  · rw [hafter]
    exact (hadd pool).trans (keepsFilled_promoteExecutables hslots)

theorem keepsFilled_reset {reinject : List Transaction} {statedb : Option StateDB} {gasLimit : ℕ}
    (hslots : 0 < setup.config.accountSlots) :
    KeepsFilled pool (pool.reset setup call reinject statedb gasLimit) := by
  cases statedb with
  | none => exact id
  | some statedb =>
    have hrebase : KeepsFilled pool (pool.rebase statedb gasLimit) := keepsFilled_of_lists rfl rfl
    have hdemote (pool : Pool) : KeepsFilled pool (pool.demoteUnexecutables setup call) :=
      keepsFilled_foldl fun _ _ ↦ (sameLists_forgetAll.keepsFilled.trans
        keepsFilled_enqueueAll).trans (keepsFilled_setPending _)
    have hupdate (pool : Pool) : KeepsFilled pool (pool.updateAccounts call) :=
      keepsFilled_foldl fun _ _ ↦ keepsFilled_of_lists rfl rfl
    exact (((hrebase.trans (keepsFilled_addTxs hslots)).trans (hdemote _)).trans (hupdate _)).trans
      (keepsFilled_promoteExecutables hslots)

/-- With at least one slot for an account, no step leaves a list empty. -/
theorem keepsFilled_step (hslots : 0 < setup.config.accountSlots) (event : Event) :
    KeepsFilled pool (step setup pool event) := by
  obtain ⟨call, op⟩ := event
  cases op with
  | addTx tx isLocal => exact keepsFilled_addTx hslots
  | addTxs txs isLocal => exact keepsFilled_addTxs hslots
  | removeTx tx => exact keepsFilled_removeTx
  | setGasPrice price =>
    have hreprice : KeepsFilled pool (pool.reprice setup price).1 := keepsFilled_of_lists rfl rfl
    exact hreprice.trans keepsFilled_removeAll
  | promoteExecutables accounts => exact keepsFilled_promoteExecutables hslots
  | reset reinject statedb gasLimit => exact keepsFilled_reset hslots
  | evict =>
    apply keepsFilled_foldl
    intro pool addr
    unfold evictAccount
    split_ifs
    · exact keepsFilled_removeAll
    · exact id
  | homestead => exact keepsFilled_of_lists rfl rfl

end Pool

end LkChain.TxPool
