import LkChain.Ethereum.Transactions
import LkChain.Foundation.Lanes

/-!
# Transaction lists of the pool

`core/tx_list.go`: the nonce-sorted list of one account and the price heap over all transactions.
A list keeps its transactions in a map by nonce, a heap of the nonces and a cached sorted slice;
with distinct nonces a heap gives them in one order only, so the three are the list sorted by nonce.
A strict list is one of pending transactions, where whatever follows a removed transaction leaves
too.

The price heap may order transactions of one price in any way. It is a parameter.
-/

namespace LkChain.TxPool

open Foundation Ethereum Transactions

/-! ## Lists of one account -/

/-- `txList`. The cost cap is an upper bound of the costs of the list. -/
@[ext]
structure TxList (strict : Bool) where
  txs : List Transaction
  costcap : ℤ
  sorted : Lanes.Rising Transaction.accountNonce txs
  capped : ∀ tx ∈ txs, (tx.cost : ℤ) ≤ costcap

namespace TxList

variable {strict : Bool} (l : TxList strict)

/-- `newTxList`. -/
def new (strict : Bool) : TxList strict where
  txs := []
  costcap := 0
  sorted := .nil
  capped := by simp

def len : ℕ := l.txs.length

def empty : Bool := l.txs.isEmpty

/-- `Get` of the sorted map. -/
def get (nonce : ℕ) : Option Transaction := l.txs.find? (·.accountNonce = nonce)

def overlaps (tx : Transaction) : Bool := (l.get tx.accountNonce).isSome

/-- `Put` of the sorted map, with the cost cap raised if the cost is above it. -/
def put (tx : Transaction) : TxList strict where
  txs := Lanes.put Transaction.accountNonce tx l.txs
  costcap := if l.costcap < tx.cost then tx.cost else l.costcap
  sorted := l.sorted.put
  capped other hmem := by
    rcases Lanes.mem_put.mp hmem with rfl | ⟨hmem, -⟩
    · split_ifs with h
      · exact le_rfl
      · exact not_lt.mp h
    · have := l.capped other hmem
      split_ifs with h
      · exact this.trans h.le
      · exact this

/-- `Add`: the new list and the transaction that was replaced. An older transaction stays unless the
new one pays more, and at least by the bump. -/
def add (tx : Transaction) (priceBump : ℕ) : Option (TxList strict × Option Transaction) :=
  match l.get tx.accountNonce with
  | some old =>
    let threshold := old.price * (100 + priceBump) / 100
    if tx.price ≤ old.price ∨ tx.price < threshold then none else some (l.put tx, some old)
  | none => some (l.put tx, none)

/-- The list with fewer transactions. -/
def shrink {txs : List Transaction} (hsublist : txs.Sublist l.txs) : TxList strict where
  txs := txs
  costcap := l.costcap
  sorted := l.sorted.sublist hsublist
  capped tx hmem := l.capped tx (hsublist.subset hmem)

/-- `Forward`: the list from a nonce on, and what was removed. -/
def forward (threshold : ℕ) : TxList strict × List Transaction :=
  (l.shrink (List.filter_sublist (p := (threshold ≤ ·.accountNonce))),
    l.txs.filter (·.accountNonce < threshold))

/-- The transactions within a cost limit, with the cost cap lowered to it. -/
def payable (costLimit : ℤ) : TxList strict where
  txs := l.txs.filter (fun tx ↦ (tx.cost : ℤ) ≤ costLimit)
  costcap := costLimit
  sorted := l.sorted.filter _
  capped _ hmem := of_decide_eq_true (List.mem_filter.mp hmem).2

/-- The transactions above a cost limit. -/
def unpayable (costLimit : ℤ) : List Transaction :=
  l.txs.filter (fun tx ↦ costLimit < (tx.cost : ℤ))

/-- The lowest nonce of some transactions, at most the largest 64-bit integer. -/
def lowest (txs : List Transaction) : ℕ :=
  txs.foldl (fun lowest tx ↦ if tx.accountNonce < lowest then tx.accountNonce else lowest)
    (2 ^ 64 - 1)

/-- `Filter`: the list, the transactions above the cost limit, and those that a strict list loses
with them. The gas limit that the source passes is not used. -/
def filter (costLimit : ℤ) : TxList strict × List Transaction × List Transaction :=
  if l.costcap ≤ costLimit then (l, [], [])
  else if strict && !(l.unpayable costLimit).isEmpty then
    ((l.payable costLimit).shrink
        (List.filter_sublist (p := (·.accountNonce ≤ lowest (l.unpayable costLimit)))),
      l.unpayable costLimit,
      (l.payable costLimit).txs.filter (lowest (l.unpayable costLimit) < ·.accountNonce))
  else (l.payable costLimit, l.unpayable costLimit, [])

/-- `Cap`: the lowest nonces up to a number of them, and the others from the highest down. -/
def cap (threshold : ℕ) : TxList strict × List Transaction :=
  (l.shrink (List.take_sublist threshold l.txs), (l.txs.drop threshold).reverse)

/-- `Remove` of the sorted map. -/
def without (tx : Transaction) : TxList strict :=
  l.shrink (List.filter_sublist (p := (·.accountNonce ≠ tx.accountNonce)))

/-- `Remove`: nothing if no transaction has the nonce, else the list without it and what a strict
list loses with it. -/
def remove (tx : Transaction) : Option (TxList strict × List Transaction) :=
  if !l.overlaps tx then none
  else if strict then
    some ((l.without tx).shrink (List.filter_sublist (p := (·.accountNonce ≤ tx.accountNonce))),
      (l.without tx).txs.filter (tx.accountNonce < ·.accountNonce))
  else some (l.without tx, [])

/-- How many transactions follow each other, from a nonce on. -/
def consecutive : ℕ → List Transaction → ℕ
  | _, [] => 0
  | next, tx :: rest => if tx.accountNonce = next then consecutive (next + 1) rest + 1 else 0

/-- The number of transactions that are ready: none if the first one is beyond the start. -/
def readyCount (start : ℕ) : ℕ :=
  match l.txs with
  | [] => 0
  | first :: rest =>
    if start < first.accountNonce then 0 else consecutive first.accountNonce (first :: rest)

/-- `Ready`: the list without the consecutive transactions at its front, and these. -/
def ready (start : ℕ) : TxList strict × List Transaction :=
  (l.shrink (List.drop_sublist (l.readyCount start) l.txs), l.txs.take (l.readyCount start))

/-- What `demoteUnexecutables` does to a pending list: the list, the transactions that are too old
or too costly, and those that are queued again. A gap in front postpones all that are left. -/
def demotion (l : TxList true) (nonce : ℕ) (balance : ℤ) :
    TxList true × List Transaction × List Transaction :=
  let (current, old) := l.forward nonce
  let (payable, drops, invalids) := current.filter balance
  if 0 < payable.len ∧ payable.get nonce = none then
    let (kept, gapped) := payable.cap 0
    (kept, old ++ drops, invalids ++ gapped)
  else (payable, old ++ drops, invalids)

/-! ### What the operations leave and take -/

variable {l} {tx : Transaction} {nonce start : ℕ} {costLimit : ℤ}

@[simp]
theorem txs_new : (new strict).txs = [] := rfl

theorem empty_iff : l.empty = true ↔ l.txs = [] := List.isEmpty_iff

theorem mem_of_get (hget : l.get nonce = some tx) : tx ∈ l.txs ∧ tx.accountNonce = nonce :=
  ⟨List.mem_of_find?_eq_some hget, by simpa using List.find?_some hget⟩

theorem get_eq_some_iff :
    l.get nonce = some tx ↔ tx ∈ l.txs ∧ tx.accountNonce = nonce := by
  refine ⟨mem_of_get, ?_⟩
  rintro ⟨hmem, hnonce⟩
  cases hget : l.get nonce with
  | none =>
    have := List.find?_eq_none.mp hget tx hmem
    exact absurd hnonce (by simpa using this)
  | some found =>
    obtain ⟨hfound, hsame⟩ := mem_of_get hget
    rw [l.sorted.eq_of_number hmem hfound (hnonce.trans hsame.symm)]

theorem get_eq_none_iff : l.get nonce = none ↔ ∀ tx ∈ l.txs, tx.accountNonce ≠ nonce := by
  simp [get, List.find?_eq_none]

theorem overlaps_iff :
    l.overlaps tx = true ↔ ∃ other ∈ l.txs, other.accountNonce = tx.accountNonce := by
  rw [overlaps, Option.isSome_iff_ne_none, ne_eq, get_eq_none_iff]
  push Not
  rfl

/-- An added transaction takes the place of the one with its nonce. -/
theorem add_eq_some {priceBump : ℕ} {list : TxList strict} {old : Option Transaction}
    (hadd : l.add tx priceBump = some (list, old)) :
    list = l.put tx ∧ old = l.get tx.accountNonce := by
  unfold add at hadd
  cases hget : l.get tx.accountNonce with
  | none =>
    rw [hget] at hadd
    cases hadd
    exact ⟨rfl, rfl⟩
  | some other =>
    rw [hget] at hadd
    dsimp only at hadd
    split_ifs at hadd
    cases hadd
    exact ⟨rfl, rfl⟩

theorem add_of_get_eq_none {priceBump : ℕ} (hget : l.get tx.accountNonce = none) :
    l.add tx priceBump = some (l.put tx, none) := by
  rw [add, hget]

theorem le_lowest (txs : List Transaction) : lowest txs ≤ 2 ^ 64 - 1 ∧
    ∀ tx ∈ txs, lowest txs ≤ tx.accountNonce := by
  suffices hfold : ∀ bound : ℕ,
      txs.foldl (fun lowest tx ↦ if tx.accountNonce < lowest then tx.accountNonce else lowest)
          bound ≤ bound ∧
        ∀ tx ∈ txs, txs.foldl
          (fun lowest tx ↦ if tx.accountNonce < lowest then tx.accountNonce else lowest)
          bound ≤ tx.accountNonce from hfold _
  induction txs with
  | nil => simp
  | cons first rest ih =>
    intro bound
    rw [List.foldl_cons]
    obtain ⟨hbound, hrest⟩ := ih (if first.accountNonce < bound then first.accountNonce else bound)
    refine ⟨hbound.trans (by split_ifs with h; exacts [h.le, le_rfl]), ?_⟩
    intro tx hmem
    rcases List.mem_cons.mp hmem with rfl | hmem
    · exact hbound.trans (by split_ifs with h; exacts [le_rfl, not_lt.mp h])
    · exact hrest tx hmem

/-- How `Filter` sorts the transactions of a list: those kept are payable, and in a strict list they
come before all that leave; those removed are not payable. -/
structure Filtered (l : TxList strict) (costLimit : ℤ) (kept : TxList strict)
    (removed invalids : List Transaction) : Prop where
  sublist : kept.txs.Sublist l.txs
  invalids_sublist : invalids.Sublist l.txs
  mem_removed : ∀ tx, tx ∈ removed ↔ tx ∈ l.txs ∧ costLimit < tx.cost
  payable : ∀ tx ∈ kept.txs, (tx.cost : ℤ) ≤ costLimit
  apart : ∀ tx ∈ kept.txs, ∀ other ∈ invalids, tx.accountNonce ≠ other.accountNonce
  invalid : ∀ tx ∈ invalids, (tx.cost : ℤ) ≤ costLimit
  cover : ∀ tx ∈ l.txs, tx ∈ kept.txs ∨ tx ∈ removed ∨ tx ∈ invalids
  closed : strict = true → ∀ tx ∈ kept.txs, ∀ other ∈ l.txs,
    other.accountNonce ≤ tx.accountNonce → other ∈ kept.txs
  loose : strict = false → invalids = []

theorem mem_payable : tx ∈ (l.payable costLimit).txs ↔ tx ∈ l.txs ∧ (tx.cost : ℤ) ≤ costLimit := by
  simp [payable]

theorem mem_unpayable : tx ∈ l.unpayable costLimit ↔ tx ∈ l.txs ∧ costLimit < (tx.cost : ℤ) := by
  simp [unpayable]

theorem filtered_of_costcap_le (hcap : l.costcap ≤ costLimit) : Filtered l costLimit l [] [] where
  sublist := List.Sublist.refl _
  invalids_sublist := List.nil_sublist _
  mem_removed tx := by
    have hpayable (hmem : tx ∈ l.txs) : (tx.cost : ℤ) ≤ costLimit := (l.capped tx hmem).trans hcap
    simpa using hpayable
  payable tx hmem := (l.capped tx hmem).trans hcap
  apart := by simp
  invalid := by simp
  cover _ hmem := .inl hmem
  closed _ _ _ _ hother _ := hother
  loose _ := rfl

/-- Without a transaction behind a removed one, the payable ones are kept. -/
theorem filtered_payable (hnone : strict = true → l.unpayable costLimit = []) :
    Filtered l costLimit (l.payable costLimit) (l.unpayable costLimit) [] where
  sublist := List.filter_sublist
  invalids_sublist := List.nil_sublist _
  mem_removed _ := mem_unpayable
  payable := (l.payable costLimit).capped
  apart := by simp
  invalid := by simp
  cover tx hmem := by
    rcases le_or_gt (tx.cost : ℤ) costLimit with hcost | hcost
    · exact .inl (mem_payable.mpr ⟨hmem, hcost⟩)
    · exact .inr (.inl (mem_unpayable.mpr ⟨hmem, hcost⟩))
  closed hstrict _ _ other hother _ := by
    refine mem_payable.mpr ⟨hother, not_lt.mp fun hcost ↦ ?_⟩
    have hmem : other ∈ l.unpayable costLimit := mem_unpayable.mpr ⟨hother, hcost⟩
    rw [hnone hstrict] at hmem
    exact List.not_mem_nil hmem
  loose _ := rfl

/-- A strict list keeps the payable transactions up to the lowest nonce that is removed. -/
theorem filtered_lowest (hstrict : strict = true) :
    Filtered l costLimit
      ((l.payable costLimit).shrink
        (List.filter_sublist (p := (·.accountNonce ≤ lowest (l.unpayable costLimit)))))
      (l.unpayable costLimit)
      ((l.payable costLimit).txs.filter (lowest (l.unpayable costLimit) < ·.accountNonce)) where
  sublist := List.filter_sublist.trans List.filter_sublist
  invalids_sublist := List.filter_sublist.trans List.filter_sublist
  mem_removed _ := mem_unpayable
  payable tx hmem := (l.payable costLimit).capped tx (List.mem_of_mem_filter hmem)
  apart tx htx other hother := by
    have hle : tx.accountNonce ≤ lowest (l.unpayable costLimit) := by
      simpa using (List.mem_filter.mp htx).2
    have hlt : lowest (l.unpayable costLimit) < other.accountNonce := by
      simpa using (List.mem_filter.mp hother).2
    exact (hle.trans_lt hlt).ne
  invalid tx hmem := (l.payable costLimit).capped tx (List.mem_of_mem_filter hmem)
  cover tx hmem := by
    rcases le_or_gt (tx.cost : ℤ) costLimit with hcost | hcost
    · have hpayable := mem_payable.mpr ⟨hmem, hcost⟩
      rcases le_or_gt tx.accountNonce (lowest (l.unpayable costLimit)) with hle | hlt
      · exact .inl (List.mem_filter.mpr ⟨hpayable, decide_eq_true hle⟩)
      · exact .inr (.inr (List.mem_filter.mpr ⟨hpayable, decide_eq_true hlt⟩))
    · exact .inr (.inl (mem_unpayable.mpr ⟨hmem, hcost⟩))
  closed _ tx htx other hother hle := by
    obtain ⟨htx, hbound⟩ := List.mem_filter.mp htx
    have hbound : tx.accountNonce ≤ lowest (l.unpayable costLimit) := by simpa using hbound
    have hcost : (other.cost : ℤ) ≤ costLimit := by
      by_contra hcost
      -- then it has the nonce of the kept transaction, and is that transaction
      have hlow := (le_lowest _).2 other (mem_unpayable.mpr ⟨hother, not_le.mp hcost⟩)
      have hsame := l.sorted.eq_of_number hother (mem_payable.mp htx).1
        (le_antisymm hle (hbound.trans hlow))
      exact hcost (hsame ▸ (mem_payable.mp htx).2)
    exact List.mem_filter.mpr
      ⟨mem_payable.mpr ⟨hother, hcost⟩, decide_eq_true (hle.trans hbound)⟩
  loose hloose := by
    rw [hstrict] at hloose
    cases hloose

theorem filter_spec (l : TxList strict) (costLimit : ℤ) :
    Filtered l costLimit (l.filter costLimit).1 (l.filter costLimit).2.1
      (l.filter costLimit).2.2 := by
  unfold filter
  split_ifs with hcap hlowest
  · exact filtered_of_costcap_le hcap
  · exact filtered_lowest (Bool.and_eq_true_iff.mp hlowest).1
  · apply filtered_payable
    intro hstrict
    simpa [hstrict] using hlowest

theorem remove_eq_none_iff : l.remove tx = none ↔ l.overlaps tx = false := by
  unfold remove
  split_ifs with hoverlaps <;> simp_all

theorem exists_remove (hoverlaps : l.overlaps tx = true) : ∃ removed, l.remove tx =
    some removed := by
  rw [← Option.ne_none_iff_exists', ne_eq, remove_eq_none_iff, hoverlaps]
  exact Bool.false_ne_true.symm

/-- A list without the nonce stays as it is when the nonce is filtered out. -/
theorem filter_of_not_overlaps (hoverlaps : l.overlaps tx = false) :
    l.txs.filter (·.accountNonce ≠ tx.accountNonce) = l.txs := by
  apply List.filter_eq_self.mpr
  intro other hother
  refine decide_eq_true fun hnonce ↦ ?_
  exact Bool.eq_false_iff.mp hoverlaps (overlaps_iff.mpr ⟨other, hother, hnonce⟩)

/-- Removing from a strict list leaves what comes before, and returns what comes behind. -/
theorem remove_strict {list rest : TxList true} {invalids : List Transaction}
    (hremove : list.remove tx = some (rest, invalids)) :
    rest.txs = list.txs.filter (·.accountNonce < tx.accountNonce) ∧
      invalids = list.txs.filter (tx.accountNonce < ·.accountNonce) := by
  unfold remove at hremove
  rw [if_pos rfl] at hremove
  split_ifs at hremove
  simp only [Option.some.injEq, Prod.mk.injEq] at hremove
  obtain ⟨rfl, rfl⟩ := hremove
  simp only [without, shrink, List.filter_filter]
  constructor <;>
  · apply List.filter_congr
    intro other _
    rw [Bool.eq_iff_iff]
    simp only [ne_eq, decide_not, Bool.and_eq_true, decide_eq_true_eq, Bool.not_eq_eq_eq_not,
      Bool.not_true, decide_eq_false_iff_not]
    omega

theorem remove_loose {list rest : TxList false} {invalids : List Transaction}
    (hremove : list.remove tx = some (rest, invalids)) :
    rest.txs = list.txs.filter (·.accountNonce ≠ tx.accountNonce) := by
  unfold remove at hremove
  rw [if_neg Bool.false_ne_true] at hremove
  split_ifs at hremove
  simp only [Option.some.injEq, Prod.mk.injEq] at hremove
  rw [← hremove.1]
  rfl

theorem take_consecutive (first : ℕ) (txs : List Transaction) :
    (txs.take (consecutive first txs)).map Transaction.accountNonce =
      List.range' first (txs.take (consecutive first txs)).length := by
  induction txs generalizing first with
  | nil => rfl
  | cons tx rest ih =>
    rw [consecutive]
    split_ifs with hnonce
    · rw [List.take_succ_cons, List.map_cons, List.length_cons, List.range'_succ, ih, hnonce]
    · rfl

theorem ready_nonces (l : TxList strict) (start : ℕ) :
    ∃ first, (l.ready start).2.map Transaction.accountNonce =
      List.range' first (l.ready start).2.length ∧ first ≤ start := by
  show ∃ first, (l.txs.take (l.readyCount start)).map Transaction.accountNonce =
    List.range' first (l.txs.take (l.readyCount start)).length ∧ first ≤ start
  unfold readyCount
  cases l.txs with
  | nil => exact ⟨start, rfl, le_rfl⟩
  | cons first rest =>
    dsimp only
    split_ifs with hstart
    · exact ⟨start, rfl, le_rfl⟩
    · exact ⟨first.accountNonce, take_consecutive _ _, not_lt.mp hstart⟩

theorem ready_append (l : TxList strict) (start : ℕ) :
    (l.ready start).2 ++ (l.ready start).1.txs = l.txs :=
  List.take_append_drop _ _

/-- How a demotion sorts the transactions of a pending list. -/
structure Demoted (l : TxList true) (kept : TxList true) (dropped demoted : List Transaction) :
    Prop where
  sublist : kept.txs.Sublist l.txs
  mem_dropped : ∀ tx ∈ dropped, tx ∈ l.txs
  mem_demoted : ∀ tx ∈ demoted, tx ∈ l.txs
  distinct : demoted.Pairwise (·.accountNonce ≠ ·.accountNonce)
  apart : ∀ tx ∈ kept.txs, ∀ other ∈ demoted, tx.accountNonce ≠ other.accountNonce
  stays : ∀ tx ∈ l.txs, tx ∉ dropped ↔ tx ∈ kept.txs ∨ tx ∈ demoted

theorem demoted_filter (l : TxList true) (nonce : ℕ) (balance : ℤ) :
    Demoted l ((l.forward nonce).1.filter balance).1
      ((l.forward nonce).2 ++ ((l.forward nonce).1.filter balance).2.1)
      ((l.forward nonce).1.filter balance).2.2 := by
  have hfiltered := (l.forward nonce).1.filter_spec balance
  have hcurrent : (l.forward nonce).1.txs.Sublist l.txs := List.filter_sublist
  have hforward {tx : Transaction} (htx : tx ∈ l.txs) :
      tx ∈ (l.forward nonce).1.txs ↔ tx ∉ (l.forward nonce).2 := by
    simp [forward, shrink, htx]
  constructor
  · exact hfiltered.sublist.trans hcurrent
  · intro tx htx
    rcases List.mem_append.mp htx with hold | hdrop
    · exact List.mem_of_mem_filter hold
    · exact hcurrent.subset ((hfiltered.mem_removed tx).mp hdrop).1
  · exact fun tx htx ↦ hcurrent.subset (hfiltered.invalids_sublist.subset htx)
  · exact ((l.forward nonce).1.sorted.sublist hfiltered.invalids_sublist).imp fun h ↦ h.ne
  · exact hfiltered.apart
  · intro tx htx
    rw [List.mem_append, not_or, ← hforward htx]
    constructor
    · rintro ⟨hmem, hdrop⟩
      rcases hfiltered.cover tx hmem with hkept | hremoved | hinvalid
      · exact .inl hkept
      · exact absurd hremoved hdrop
      · exact .inr hinvalid
    · rintro (hkept | hinvalid)
      · exact ⟨hfiltered.sublist.subset hkept, fun hdrop ↦
          (hfiltered.payable tx hkept).not_gt ((hfiltered.mem_removed tx).mp hdrop).2⟩
      · exact ⟨hfiltered.invalids_sublist.subset hinvalid, fun hdrop ↦
          (hfiltered.invalid tx hinvalid).not_gt ((hfiltered.mem_removed tx).mp hdrop).2⟩

theorem demotion_spec (l : TxList true) (nonce : ℕ) (balance : ℤ) :
    Demoted l (l.demotion nonce balance).1 (l.demotion nonce balance).2.1
      (l.demotion nonce balance).2.2 := by
  have hdemoted := demoted_filter l nonce balance
  unfold demotion
  dsimp only
  split_ifs
  · -- the kept transactions join the demoted ones
    set kept := ((l.forward nonce).1.filter balance).1
    set invalids := ((l.forward nonce).1.filter balance).2.2
    have hgapped {tx : Transaction} : tx ∈ (kept.cap 0).2 ↔ tx ∈ kept.txs := by simp [cap]
    constructor
    · simp [cap, shrink]
    · exact hdemoted.mem_dropped
    · intro tx htx
      rcases List.mem_append.mp htx with hinvalid | hmem
      · exact hdemoted.mem_demoted tx hinvalid
      · exact hdemoted.sublist.subset (hgapped.mp hmem)
    · rw [List.pairwise_append]
      refine ⟨hdemoted.distinct, ?_, fun tx htx other hother ↦
        (hdemoted.apart other (hgapped.mp hother) tx htx).symm⟩
      simp only [cap, List.drop_zero, List.pairwise_reverse]
      exact kept.sorted.imp fun h ↦ h.ne'
    · simp [cap, shrink]
    · intro tx htx
      rw [hdemoted.stays tx htx, List.mem_append, hgapped]
      simp [cap, shrink, or_comm]
  · exact hdemoted

theorem demotion_nonces {l : TxList true} (balance : ℤ)
    (hnonces : l.txs.map Transaction.accountNonce = List.range' start l.txs.length)
    (hstart : start ≤ nonce) :
    (l.demotion nonce balance).1.txs.map Transaction.accountNonce =
      List.range' nonce (l.demotion nonce balance).1.txs.length := by
  have hfiltered := (l.forward nonce).1.filter_spec balance
  have hcurrent : (l.forward nonce).1.txs.map Transaction.accountNonce =
      List.range' nonce (l.forward nonce).1.txs.length := Lanes.map_filter_le hnonces hstart
  unfold demotion
  dsimp only
  split_ifs
  · rfl
  · exact Lanes.map_of_closed hcurrent hfiltered.sublist (hfiltered.closed rfl)

theorem filter_of_payable (hpayable : ∀ tx ∈ l.txs, (tx.cost : ℤ) ≤ costLimit) :
    (l.filter costLimit).1.txs = l.txs ∧ (l.filter costLimit).2.2 = [] := by
  have hnone : l.unpayable costLimit = [] := by
    apply List.filter_eq_nil_iff.mpr
    intro tx htx
    simpa using hpayable tx htx
  unfold filter
  split_ifs with hcap hlowest
  · exact ⟨rfl, rfl⟩
  · simp [hnone] at hlowest
  · refine ⟨?_, rfl⟩
    apply List.filter_eq_self.mpr
    exact fun tx htx ↦ decide_eq_true (hpayable tx htx)

/-- Where every transaction from the nonce on is payable and there is no gap, these are kept and
none is demoted. -/
theorem demotion_of_payable {l : TxList true} {balance : ℤ}
    (hnonces : l.txs.map Transaction.accountNonce = List.range' start l.txs.length)
    (hstart : start ≤ nonce)
    (hpayable : ∀ tx ∈ l.txs, nonce ≤ tx.accountNonce → (tx.cost : ℤ) ≤ balance) :
    (l.demotion nonce balance).1.txs = l.txs.filter (nonce ≤ ·.accountNonce) ∧
      (l.demotion nonce balance).2.2 = [] := by
  have hcurrent : (l.forward nonce).1.txs.map Transaction.accountNonce =
      List.range' nonce (l.forward nonce).1.txs.length := Lanes.map_filter_le hnonces hstart
  obtain ⟨hkept, hinvalids⟩ : ((l.forward nonce).1.filter balance).1.txs = (l.forward nonce).1.txs ∧
      ((l.forward nonce).1.filter balance).2.2 = [] := by
    apply filter_of_payable
    intro tx htx
    obtain ⟨hmem, hlow⟩ := List.mem_filter.mp htx
    exact hpayable tx hmem (of_decide_eq_true hlow)
  unfold demotion
  dsimp only
  rw [if_neg]
  · exact ⟨hkept, hinvalids⟩
  · -- the first transaction that is left has the nonce
    rintro ⟨hlen, hget⟩
    unfold len at hlen
    rw [get_eq_none_iff, hkept] at hget
    rw [hkept] at hlen
    cases htxs : (l.forward nonce).1.txs with
    | nil =>
      rw [htxs] at hlen
      exact Nat.lt_irrefl 0 hlen
    | cons tx rest =>
      rw [htxs] at hcurrent hget
      exact hget tx (List.mem_cons_self ..) (Lanes.of_consecutive_cons hcurrent).1

end TxList

/-! ## The price heap -/

/-- A priority queue of transactions with the cheapest one first, as `container/heap` keeps it. -/
structure Heap where
  init : List Transaction → List Transaction
  push : Transaction → List Transaction → List Transaction
  pop : List Transaction → Option (Transaction × List Transaction)
  init_perm : ∀ items, (init items).Perm items
  push_perm : ∀ tx items, (push tx items).Perm (tx :: items)
  pop_eq_none : ∀ items, pop items = none → items = []
  pop_perm : ∀ items tx rest, pop items = some (tx, rest) → items.Perm (tx :: rest)
  pop_price : ∀ items tx rest, pop items = some (tx, rest) → ∀ other ∈ rest, tx.price ≤ other.price

/-- `txPricedList`: heap entries may be stale, which the counter keeps track of. -/
structure PricedList where
  items : List Transaction
  stales : ℤ

namespace PricedList

variable (heap : Heap) (all : List Transaction) (isLocal : Transaction → Bool)

def new : PricedList := ⟨[], 0⟩

def put (l : PricedList) (tx : Transaction) : PricedList := { l with items := heap.push tx l.items }

/-- `Removed`: once more than a quarter of the entries are stale, the heap is built anew. -/
def removed (l : PricedList) : PricedList :=
  if l.stales + 1 ≤ l.items.length / 4 then { l with stales := l.stales + 1 }
  else ⟨heap.init all, 0⟩

/-- The loop of `Cap`: the list, the transactions to drop and those to put back. The fuel is the
number of entries, of which every turn takes one. -/
def capLoop (threshold : ℕ) :
    ℕ → PricedList → List Transaction → List Transaction →
      PricedList × List Transaction × List Transaction
  | 0, l, drop, save => (l, drop, save)
  | fuel + 1, l, drop, save =>
    match heap.pop l.items with
    | none => (l, drop, save)
    | some (tx, rest) =>
      if tx ∉ all then capLoop threshold fuel ⟨rest, l.stales - 1⟩ drop save
      else if threshold ≤ tx.price then (⟨rest, l.stales⟩, drop, save ++ [tx])
      else if isLocal tx then capLoop threshold fuel ⟨rest, l.stales⟩ drop (save ++ [tx])
      else capLoop threshold fuel ⟨rest, l.stales⟩ (drop ++ [tx]) save

/-- `Cap`: drop the transactions below a price. -/
def cap (l : PricedList) (threshold : ℕ) : PricedList × List Transaction :=
  let (l, drop, save) := capLoop heap all isLocal threshold l.items.length l [] []
  (save.foldl (put heap) l, drop)

/-- Pop stale entries until the cheapest one is live. -/
def skipStale : ℕ → PricedList → PricedList
  | 0, l => l
  | fuel + 1, l =>
    match heap.pop l.items with
    | none => l
    | some (tx, rest) => if tx ∉ all then skipStale fuel ⟨rest, l.stales - 1⟩ else l

/-- `Underpriced`: whether a transaction is not dearer than the cheapest one. -/
def underpriced (l : PricedList) (tx : Transaction) : PricedList × Bool :=
  if isLocal tx then (l, false)
  else
    let l := skipStale heap all l.items.length l
    match heap.pop l.items with
    | none => (l, false)
    | some (cheapest, _) => (l, tx.price ≤ cheapest.price)

/-- The loop of `Discard`. -/
def discardLoop :
    ℕ → ℤ → PricedList → List Transaction → List Transaction →
      PricedList × List Transaction × List Transaction
  | 0, _, l, drop, save => (l, drop, save)
  | fuel + 1, count, l, drop, save =>
    if count ≤ 0 then (l, drop, save)
    else
      match heap.pop l.items with
      | none => (l, drop, save)
      | some (tx, rest) =>
        if tx ∉ all then discardLoop fuel count ⟨rest, l.stales - 1⟩ drop save
        else if isLocal tx then discardLoop fuel count ⟨rest, l.stales⟩ drop (save ++ [tx])
        else discardLoop fuel (count - 1) ⟨rest, l.stales⟩ (drop ++ [tx]) save

/-- `Discard`: drop a number of the cheapest transactions. -/
def discard (l : PricedList) (count : ℤ) : PricedList × List Transaction :=
  let (l, drop, save) := discardLoop heap all isLocal l.items.length count l [] []
  (save.foldl (put heap) l, drop)

end PricedList

end LkChain.TxPool
