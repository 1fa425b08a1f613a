import LkChain.Tendermint.Mempools
import Mathlib.Data.Finset.Card

/-!
# The cache of the mempool

`txCache` is to remember the transactions that were pushed last. It has a map, which says what is
cached, and a list, which says in which order the pushes came. `Push` drops the front of a full
list and forgets its transaction; `Remove` forgets a transaction but leaves its place in the list.

The list is always what was pushed last, so that the cache never holds more than its size. A
transaction that is removed and pushed again has two places in the list, and is forgotten when the
older one is dropped.
-/

namespace LkChain.Tendermint.Mempools

variable {Tx : Type} [DecidableEq Tx]

/-! ## The calls -/

/-- A call on the cache that changes it. -/
inductive CacheCall (Tx : Type) where
  | push (tx : Tx)
  | remove (tx : Tx)
  | reset

/-! ## What the cache is to remember -/

/-- The successful pushes since the last reset, the latest first, and the transactions that were
removed since they were pushed. -/
structure PushLog (Tx : Type) where
  pushed : List Tx
  removed : Tx → Bool

/-- Nothing was pushed yet. -/
def PushLog.empty (Tx : Type) : PushLog Tx := ⟨[], fun _ ↦ false⟩

def PushLog.push (log : PushLog Tx) (tx : Tx) : PushLog Tx :=
  ⟨tx :: log.pushed, Function.update log.removed tx false⟩

def PushLog.remove (log : PushLog Tx) (tx : Tx) : PushLog Tx :=
  { log with removed := Function.update log.removed tx true }

/-- How many pushes succeeded since the last one of the transaction. -/
def PushLog.age (log : PushLog Tx) (tx : Tx) : ℕ := log.pushed.idxOf tx

/-- The transaction was pushed and not removed since, and fewer pushes than the size of the cache
have succeeded since. -/
def PushLog.Recent (log : PushLog Tx) (size : ℕ) (tx : Tx) : Prop :=
  tx ∈ log.pushed ∧ log.removed tx = false ∧ log.age tx < size

/-- An earlier push of the transaction fell out of the last `size` ones after its latest push. -/
def PushLog.Overtaken (log : PushLog Tx) (size : ℕ) (tx : Tx) : Prop :=
  ∃ place < size + log.age tx, size ≤ place ∧ log.pushed[place]? = some tx

instance (log : PushLog Tx) (size : ℕ) (tx : Tx) : Decidable (log.Recent size tx) :=
  inferInstanceAs (Decidable (_ ∧ _ ∧ _))

instance (log : PushLog Tx) (size : ℕ) (tx : Tx) : Decidable (log.Overtaken size tx) :=
  inferInstanceAs (Decidable (∃ place < _, _ ∧ _))

/-! ## Runs -/

/-- A call, and the log of what it did. -/
def cacheStep (size : ℕ) (s : TxCache Tx × PushLog Tx) : CacheCall Tx → TxCache Tx × PushLog Tx
  | .push tx =>
    let answer := s.1.push size tx
    (answer.1, if answer.2 then s.2.push tx else s.2)
  | .remove tx => (s.1.remove tx, s.2.remove tx)
  | .reset => (newTxCache Tx, .empty Tx)

/-- The cache and its log after a sequence of calls. -/
def cacheRun (size : ℕ) (calls : List (CacheCall Tx)) : TxCache Tx × PushLog Tx :=
  calls.foldl (cacheStep size) (newTxCache Tx, .empty Tx)

/-- The list holds the last pushes, and the map what is recent and was not overtaken. -/
structure Follows (size : ℕ) (cache : TxCache Tx) (log : PushLog Tx) : Prop where
  list : cache.list = (log.pushed.take size).reverse
  map : ∀ tx, cache.map tx = true ↔ log.Recent size tx ∧ ¬ log.Overtaken size tx

theorem follows_empty (size : ℕ) : Follows size (newTxCache Tx) (.empty Tx) where
  list := by simp [newTxCache, PushLog.empty]
  map tx := by simp [newTxCache, PushLog.Recent, PushLog.empty]

variable {size : ℕ} {cache : TxCache Tx} {log : PushLog Tx}

theorem dropFront_of_lt (hroom : cache.list.length < size) : cache.dropFront size = cache := by
  unfold TxCache.dropFront
  split
  · rfl
  · exact if_neg (not_le.mpr hroom)

theorem dropFront_of_cons {popped : Tx} {rest : List Tx} (hlist : cache.list = popped :: rest)
    (hfull : size ≤ cache.list.length) :
    cache.dropFront size = ⟨Function.update cache.map popped false, rest⟩ := by
  unfold TxCache.dropFront
  split
  · rename_i hnil
    rw [hlist] at hnil
    cases hnil
  · rename_i hcons
    rw [hlist] at hcons
    cases hcons
    exact if_pos hfull

theorem Follows.dropFront (hfollows : Follows size cache log) (hsize : 0 < size) :
    (cache.dropFront size).list = (log.pushed.take (size - 1)).reverse ∧
      ∀ tx, (cache.dropFront size).map tx = true ↔
        cache.map tx = true ∧ log.pushed[size - 1]? ≠ some tx := by
  obtain ⟨last, rfl⟩ : ∃ last, size = last + 1 := Nat.exists_eq_add_of_lt hsize |>.imp (by omega)
  have hlist := hfollows.list
  rw [List.take_add_one, List.reverse_append] at hlist
  rw [Nat.add_sub_cancel]
  cases holdest : log.pushed[last]? with
  | none =>
    rw [holdest] at hlist
    have hroom : cache.list.length < last + 1 := by
      rw [hlist]
      simp
    rw [dropFront_of_lt hroom]
    exact ⟨hlist, fun tx ↦ ⟨fun h ↦ ⟨h, Option.some_ne_none tx |>.symm⟩, And.left⟩⟩
  | some popped =>
    rw [holdest] at hlist
    have hlong : last < log.pushed.length := (List.getElem?_eq_some_iff.mp holdest).1
    have hfull : last + 1 ≤ cache.list.length := by
      rw [hlist]
      simp [hlong.le]
    rw [dropFront_of_cons hlist hfull]
    refine ⟨rfl, fun tx ↦ ?_⟩
    dsimp only
    rw [Function.update_apply, Option.some_inj.ne]
    split_ifs with hpopped
    · simp [hpopped]
    · simp [Ne.symm hpopped]

/-! ## A push in the log -/

theorem age_push_self (log : PushLog Tx) (tx : Tx) : (log.push tx).age tx = 0 :=
  List.idxOf_cons_self

theorem age_push_of_ne {tx other : Tx} (hne : other ≠ tx) :
    (log.push tx).age other = log.age other + 1 :=
  List.idxOf_cons_ne _ hne.symm

theorem recent_push_self (hsize : 0 < size) (log : PushLog Tx) (tx : Tx) :
    (log.push tx).Recent size tx ∧ ¬ (log.push tx).Overtaken size tx := by
  refine ⟨⟨List.mem_cons_self, Function.update_self _ _ _, ?_⟩, ?_⟩
  · rw [age_push_self]
    exact hsize
  · rintro ⟨place, hlt, hle, -⟩
    rw [age_push_self] at hlt
    omega

theorem overtaken_push_of_ne {tx other : Tx} (hne : other ≠ tx) (hsize : 0 < size) :
    (log.push tx).Overtaken size other ↔
      log.Overtaken size other ∨ log.pushed[size - 1]? = some other := by
  unfold PushLog.Overtaken
  rw [age_push_of_ne hne]
  constructor
  · rintro ⟨place, hlt, hle, hplace⟩
    obtain ⟨earlier, rfl⟩ : ∃ earlier, place = earlier + 1 := ⟨place - 1, by omega⟩
    by_cases hlast : earlier = size - 1
    · exact .inr (hlast ▸ hplace)
    · exact .inl ⟨earlier, by omega, by omega, hplace⟩
  · rintro (⟨place, hlt, hle, hplace⟩ | hlast)
    · exact ⟨place + 1, by omega, by omega, hplace⟩
    · exact ⟨size - 1 + 1, by omega, by omega, hlast⟩

theorem recent_push_of_ne {tx other : Tx} (hne : other ≠ tx) (hsize : 0 < size) :
    (log.push tx).Recent size other ↔ log.Recent size other ∧ log.age other ≠ size - 1 := by
  unfold PushLog.Recent
  rw [age_push_of_ne hne]
  simp only [PushLog.push, List.mem_cons, hne, false_or, Function.update_of_ne hne]
  constructor
  · rintro ⟨hmem, hremoved, hage⟩
    exact ⟨⟨hmem, hremoved, by omega⟩, by omega⟩
  · rintro ⟨⟨hmem, hremoved, hage⟩, hlast⟩
    exact ⟨hmem, hremoved, by omega⟩

theorem getElem?_age {tx : Tx} (hmem : tx ∈ log.pushed) : log.pushed[log.age tx]? = some tx :=
  List.getElem?_idxOf hmem

theorem Follows.push (hfollows : Follows size cache log) (hsize : 0 < size) (tx : Tx)
    (hnew : cache.map tx = false) : Follows size (cache.push size tx).1 (log.push tx) := by
  have hroom := hfollows.dropFront hsize
  unfold TxCache.push
  rw [if_neg (Bool.not_eq_true _ ▸ hnew)]
  constructor
  · dsimp only
    rw [hroom.1, PushLog.push, List.take_cons hsize, List.reverse_cons]
  · intro other
    dsimp only
    by_cases hother : other = tx
    · rw [hother, Function.update_self]
      exact ⟨fun _ ↦ recent_push_self hsize log tx, fun _ ↦ rfl⟩
    · rw [Function.update_of_ne hother, hroom.2, hfollows.map, recent_push_of_ne hother hsize,
        overtaken_push_of_ne hother hsize, not_or]
      constructor
      · rintro ⟨⟨hrecent, hovertaken⟩, hlast⟩
        have hage : log.age other ≠ size - 1 := by
          intro hage
          exact hlast (hage ▸ getElem?_age hrecent.1)
        exact ⟨⟨hrecent, hage⟩, hovertaken, hlast⟩
      · rintro ⟨⟨hrecent, -⟩, hovertaken, hlast⟩
        exact ⟨⟨hrecent, hovertaken⟩, hlast⟩

/-- A removed transaction is not recent; the others are as recent as before. -/
theorem Follows.remove (hfollows : Follows size cache log) (tx : Tx) :
    Follows size (cache.remove tx) (log.remove tx) where
  list := hfollows.list
  map other := by
    by_cases hother : other = tx
    · rw [hother]
      simp [TxCache.remove, PushLog.remove, PushLog.Recent]
    · have hmap := hfollows.map other
      simp only [TxCache.remove, PushLog.remove, PushLog.Recent, PushLog.Overtaken, PushLog.age,
        Function.update_of_ne hother] at hmap ⊢
      exact hmap

theorem Follows.cacheStep (hsize : 0 < size) {s : TxCache Tx × PushLog Tx}
    (hfollows : Follows size s.1 s.2) (call : CacheCall Tx) :
    Follows size (cacheStep size s call).1 (cacheStep size s call).2 := by
  cases call with
  | push tx =>
    by_cases hcached : s.1.map tx = true
    · simp only [Mempools.cacheStep, TxCache.push, if_pos hcached]
      exact hfollows
    · have hpush := hfollows.push hsize tx (Bool.not_eq_true _ ▸ hcached)
      have hanswer : (s.1.push size tx).2 = true := by
        rw [TxCache.push, if_neg hcached]
      simp only [Mempools.cacheStep, hanswer, if_true]
      exact hpush
  | remove tx => exact hfollows.remove tx
  | reset => exact follows_empty size

theorem follows_cacheRun (hsize : 0 < size) (calls : List (CacheCall Tx)) :
    Follows size (cacheRun size calls).1 (cacheRun size calls).2 := by
  apply List.foldlRecOn calls (cacheStep size)
    (motive := fun s ↦ Follows size s.1 s.2)
  · exact follows_empty size
  · intro s hs call _
    exact hs.cacheStep hsize call

/-- What is cached is in the list, which is never longer than the size. -/
theorem Follows.card_le (hfollows : Follows size cache log) :
    ∃ present : Finset Tx, (∀ tx, cache.existsTx tx = true ↔ tx ∈ present) ∧
      present.card ≤ size := by
  refine ⟨cache.list.toFinset.filter fun tx ↦ cache.map tx = true, fun tx ↦ ?_, ?_⟩
  · rw [Finset.mem_filter, List.mem_toFinset, hfollows.list, List.mem_reverse]
    refine ⟨fun hcached ↦ ⟨?_, hcached⟩, And.right⟩
    obtain ⟨hmem, -, hage⟩ := ((hfollows.map tx).mp hcached).1
    exact (List.mem_take_iff_idxOf_lt hmem).mpr hage
  · calc (cache.list.toFinset.filter fun tx ↦ cache.map tx = true).card
        ≤ cache.list.toFinset.card := Finset.card_filter_le _ _
      _ ≤ cache.list.length := List.toFinset_card_le _
      _ ≤ size := by
        rw [hfollows.list, List.length_reverse]
        exact List.length_take_le _ _

/-! ## What the cache remembers -/

/-- A transaction is cached exactly when it is recent, unless an older push of it fell out of the
list after the latest one. The cache never holds more than its size. -/
theorem existsTx_iff_recent (hsize : 0 < size) (calls : List (CacheCall Tx)) :
    (∀ tx, ((cacheRun size calls).1.existsTx tx = true ↔ (cacheRun size calls).2.Recent size tx) ↔
      ((cacheRun size calls).2.Recent size tx → ¬ (cacheRun size calls).2.Overtaken size tx)) ∧
    ∃ present : Finset Tx, (∀ tx, (cacheRun size calls).1.existsTx tx = true ↔ tx ∈ present) ∧
      present.card ≤ size := by
  have hfollows := follows_cacheRun hsize calls
  refine ⟨fun tx ↦ ?_, hfollows.card_le⟩
  rw [TxCache.existsTx, hfollows.map tx]
  exact and_iff_left_iff_imp

/-- A cache of two after two pushes: both transactions are recent, neither is overtaken. -/
theorem existsTx_iff_recent_two :
    (cacheRun 2 [.push 1, .push 2]).2.Recent 2 1 ∧
      (cacheRun 2 [CacheCall.push 1, .push 2]).1.existsTx 1 = true := by
  have hrecent : (cacheRun 2 [CacheCall.push 1, .push 2]).2.Recent 2 1 := by decide
  refine ⟨hrecent, ?_⟩
  apply (((existsTx_iff_recent Nat.zero_lt_two [CacheCall.push 1, .push 2]).1 1).mpr ?_).mpr hrecent
  intro _
  decide

/-- A transaction that is removed and pushed again is gone after one more push. -/
theorem not_existsTx_of_repush :
    (cacheRun 2 [.push 1, .remove 1, .push 1, .push 2]).2.Recent 2 1 ∧
      (cacheRun 2 [CacheCall.push 1, .remove 1, .push 1, .push 2]).1.existsTx 1 = false := by
  decide

end LkChain.Tendermint.Mempools
